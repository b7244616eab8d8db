import Templating.Markup.Tag

/-! Where in a tag a character of text stands, told by an automaton, and what a text with an
expression at some places is to be read as. A tag is one only if the automaton gets to its end. -/
namespace Templating.Markup
open Text (isBlank)

/-- A character, or the place of an expression. -/
inductive Sym where
  | char (c : Char)
  | hole
  deriving DecidableEq

/-- Literal text, a character at a time, and expressions among it. -/
inductive Atom where
  | char (c : Char)
  | expression (code : String)
  | other
  deriving DecidableEq

inductive Place where
  | opening
  | tagName
  | between
  | attributeName
  | afterName
  | afterEquals
  | quoted (quote : Char)
  | unquoted
  deriving DecidableEq

inductive Step where
  | fail
  | close
  | go (p : Place)
  deriving DecidableEq

/-- The place that the automaton is in next, unless the tag ends here. -/
def Step.place? : Step → Option Place
  | go p => some p
  | _ => none

def chars (cs : List Char) : List Atom := cs.map .char

namespace Place

def begin (c : Char) : Step :=
  if isBlank c then .go between
  else if c == '>' then .close
  else if ['@', '"', '\'', '=', '<', '\x7b', '\x7d'].contains c then .fail
  else .go attributeName

def advance : Place → Sym → Step
  | opening, .char c => if c.isAlpha then .go tagName else .fail
  | tagName, .char c => if isBlank c then .go between else if c == '>' then .close else .go tagName
  | between, .char c => begin c
  | attributeName, .char c =>
    if isBlank c then .go afterName
    else if c == '=' then .go afterEquals
    else if c == '>' then .close
    else if ['"', '\'', '<', '@'].contains c then .fail
    else .go attributeName
  | afterName, .char c =>
    if isBlank c then .go afterName else if c == '=' then .go afterEquals else begin c
  | afterEquals, .char c =>
    if isBlank c then .go afterEquals
    else if c == '"' || c == '\'' then .go (quoted c)
    else if c == '>' then .close
    else .go unquoted
  | quoted q, .char c => .go (if c == q then between else quoted q)
  | unquoted, .char c =>
    if isBlank c then .go between else if c == '>' then .close else .go unquoted
  | tagName, .hole => .go tagName
  | afterEquals, .hole | unquoted, .hole => .go unquoted
  | quoted q, .hole => .go (quoted q)
  | opening, .hole | between, .hole | attributeName, .hole | afterName, .hole => .fail

/-- Whether the automaton gets to the end of a tag. -/
def closes : Place → List Sym → Bool
  | _, [] => false
  | p, y :: s =>
    match p.advance y with
    | .fail => false
    | .close => true
    | .go q => q.closes s

/-- The place behind text, from inside a tag or outside any, with more text to follow. -/
def behind : Option Place → List Char → List Sym → Option Place
  | p, [], _ => p
  | none, c :: cs, after =>
    behind (if c == '<' && opening.closes (cs.map .char ++ after) then some opening else none)
      cs after
  | some p, c :: cs, after => behind (p.advance (.char c)).place? cs after

def hides : Place → Bool
  | tagName | afterEquals | unquoted => true
  | _ => false

end Place

section
variable (x : List Char)

def Sym.print : Sym → List Char
  | .char c => [c]
  | .hole => '@' :: '(' :: x ++ [')']

def fill (s : List Sym) : List Char := s.flatMap (Sym.print x)

/-- What a symbol inside a tag is read as. -/
def Place.emit (p : Place) : Sym → List Atom
  | .char c => [.char c]
  | .hole => if p.hides then chars (Sym.print x .hole) else [.expression (.ofList x)]

/-- The way from a place inside a tag to its end: what is read, and what is left. -/
def cross : Place → List Sym → Option (List Atom × List Sym)
  | _, [] => none
  | p, y :: s =>
    match p.advance y with
    | .fail => none
    | .close => some (p.emit x y, s)
    | .go q => (cross q s).map fun (as, r) => (p.emit x y ++ as, r)

/-- What a text is read as, from inside a tag or outside any. -/
def atoms : Option Place → List Sym → List Atom
  | _, [] => []
  | none, .hole :: s => .expression (.ofList x) :: atoms none s
  | none, .char c :: s =>
    .char c :: atoms (if c == '<' && Place.opening.closes s then some .opening else none) s
  | some p, y :: s => p.emit x y ++ atoms (p.advance y).place? s

end

/-- No at sign but those of the expressions, and no slash. -/
def Clean (s : List Sym) : Prop := ∀ y ∈ s, y ≠ .char '@' ∧ y ≠ .char '/'

/-! The way through a tag -/

variable {x : List Char} {p q : Place} {s u r : List Sym} {as bs : List Atom}

def lead (as : List Atom) (o : Option (List Atom × List Sym)) : Option (List Atom × List Sym) :=
  o.map fun (bs, r) => (as ++ bs, r)

theorem lead_lead (as bs : List Atom) (o : Option (List Atom × List Sym)) :
    lead as (lead bs o) = lead (as ++ bs) o := by
  cases o <;> simp [lead]

theorem lead_nil (o : Option (List Atom × List Sym)) : lead [] o = o := by cases o <;> simp [lead]

theorem cross_go {y : Sym} (h : p.advance y = .go q) (s : List Sym) :
    cross x p (y :: s) = lead (p.emit x y) (cross x q s) := by
  rw [cross, h]
  rfl

theorem cross_fail {y : Sym} (h : p.advance y = .fail) (s : List Sym) :
    cross x p (y :: s) = none := by rw [cross, h]

theorem cross_close {y : Sym} (h : p.advance y = .close) (s : List Sym) :
    cross x p (y :: s) = some (p.emit x y, s) := by rw [cross, h]

theorem cross_stay (h : ∀ y ∈ u, p.advance y = .go p) (s : List Sym) :
    cross x p (u ++ s) = lead (u.flatMap (p.emit x)) (cross x p s) := by
  induction u with
  | nil => exact (lead_nil _).symm
  | cons y u ih =>
    have hy := h y (List.mem_cons_self ..)
    rw [List.cons_append, cross_go hy, ih fun z hz => h z (List.mem_cons_of_mem y hz), lead_lead,
      List.flatMap_cons]

theorem chars_append (a b : List Char) : chars (a ++ b) = chars a ++ chars b := List.map_append

theorem fill_cons (y : Sym) (s : List Sym) : fill x (y :: s) = y.print x ++ fill x s := rfl

theorem fill_append (s r : List Sym) : fill x (s ++ r) = fill x s ++ fill x r := List.flatMap_append

theorem emit_eq_chars (h : Sym.hole ∈ u → p.hides) : u.flatMap (p.emit x) = chars (fill x u) := by
  induction u with
  | nil => rfl
  | cons y u ih =>
    have hu := ih fun hm => h (List.mem_cons_of_mem y hm)
    rw [List.flatMap_cons, hu, fill_cons, chars_append]
    cases y with
    | char c => rfl
    | hole => simp [Place.emit, h]

theorem isSome_cross (p : Place) (s : List Sym) : (cross x p s).isSome = p.closes s := by
  induction s generalizing p with
  | nil => rfl
  | cons y s ih =>
    rw [cross, Place.closes]
    cases p.advance y with
    | fail => rfl
    | close => rfl
    | go q => simpa using ih q

theorem cross_suffix (h : cross x p s = some (as, r)) : ∃ u, u ≠ [] ∧ s = u ++ r := by
  induction s generalizing p as with
  | nil => simp [cross] at h
  | cons y s ih =>
    rw [cross] at h
    split at h
    · simp at h
    · obtain ⟨-, rfl⟩ : _ ∧ s = r := by simpa using h
      exact ⟨[y], by simp, rfl⟩
    · obtain ⟨⟨bs, r'⟩, hc, he⟩ := Option.map_eq_some_iff.mp h
      obtain ⟨-, rfl⟩ : _ ∧ r' = r := by simpa using he
      obtain ⟨u, -, rfl⟩ := ih hc
      exact ⟨y :: u, by simp, rfl⟩

theorem atoms_of_cross (h : cross x p s = some (as, r)) :
    atoms x (some p) s = as ++ atoms x none r := by
  induction s generalizing p as with
  | nil => simp [cross] at h
  | cons y s ih =>
    rw [cross] at h
    rw [atoms]
    split at h
    · simp at h
    · next hy =>
      obtain ⟨rfl, rfl⟩ : _ = as ∧ s = r := by simpa using h
      rw [hy]
      rfl
    · next q hy =>
      obtain ⟨⟨bs, r'⟩, hc, he⟩ := Option.map_eq_some_iff.mp h
      obtain ⟨rfl, rfl⟩ : _ = as ∧ r' = r := by simpa using he
      rw [hy, Step.place?, ih hc, List.append_assoc]

/-- A text with one expression is itself, but where the expression stands that is read or hidden. -/
theorem atoms_append_hole (a b : List Char) (p : Option Place) :
    atoms x p (a.map .char ++ .hole :: b.map .char) = chars a ++
      (if (Place.behind p a (.hole :: b.map .char)).any Place.hides then chars (Sym.print x .hole)
        else [.expression (.ofList x)]) ++ chars b := by
  have hchars : ∀ p, atoms x p (b.map .char) = chars b := by
    intro p
    induction b generalizing p with
    | nil => cases p <;> rfl
    | cons c b ih => cases p <;> simpa [atoms, chars, Place.emit] using ih _
  induction a generalizing p with
  | nil =>
    cases p with
    | none => simp [atoms, Place.behind, hchars, chars]
    | some p => cases hp : p.hides <;> simp [atoms, Place.behind, Place.emit, hchars, hp, chars]
  | cons c a ih =>
    cases p with
    | none =>
      rw [List.map_cons, List.cons_append, atoms, ih]
      rfl
    | some p =>
      rw [List.map_cons, List.cons_append, atoms, ih]
      rfl

theorem other_not_mem_atoms (p : Option Place) (s : List Sym) : Atom.other ∉ atoms x p s := by
  induction s generalizing p with
  | nil => cases p <;> simp [atoms]
  | cons y s ih =>
    cases p with
    | none => cases y <;> simp [atoms, ih]
    | some p =>
      have hy : Atom.other ∉ p.emit x y := by
        cases y with
        | char c => simp [Place.emit]
        | hole =>
          rw [Place.emit]
          split <;> simp [chars]
      rw [atoms, List.mem_append]
      exact not_or.mpr ⟨hy, ih _⟩

end Templating.Markup
