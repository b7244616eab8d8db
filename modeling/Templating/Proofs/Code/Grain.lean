import Templating.Code.Scan

/-! Code as a row of grains: tokens whose inside is not read as code, delimiters, and single other
characters. A grain is judged with what stands before it and behind it. -/
namespace Templating.Code

/-- A kind of token whose inside is not read as code. -/
inductive Cover where
  | string
  /-- A string without escapes that as many `#` guard. -/
  | raw (guards : Nat)
  | character
  /-- A comment up to the end of its line. -/
  | line
  /-- A comment up to where it is closed. -/
  | block
  deriving DecidableEq

/-- Behind an apostrophe: it begins a character, and not a lifetime. -/
def CharacterBegins (behind : List Char) : Prop :=
  (∃ r, behind = '\\' :: r) ∨ ∃ c r, behind = c :: '\'' :: r

/-- Behind the character that goes before, `lead` begins such a token if this stands behind it. -/
inductive Cover.Opens (p : Option Char) : Cover → List Char → List Char → Prop
  | string (behind : List Char) : Opens p .string ['"'] behind
  | raw {letters : List Char} (n : Nat) (behind : List Char) (hletters : letters = ['r'] ∨
      letters = ['b', 'r'])
      (hp : p.any Text.continuesName = false) :
      Opens p (.raw n) (letters ++ (List.replicate n '#' ++ ['"'])) behind
  | character {behind : List Char} (hbegins : CharacterBegins behind) :
      Opens p .character ['\''] behind
  | line (behind : List Char) : Opens p .line ['/', '/'] behind
  | block (behind : List Char) : Opens p .block ['/', '*'] behind

/-- A text up to its first mark, where a backslash takes the character behind it along. -/
inductive UpToUnescaped (mark : Char) : List Char → Prop
  | mark : UpToUnescaped mark [mark]
  | escaped (c : Char) {u : List Char} (hu : UpToUnescaped mark u) :
      UpToUnescaped mark ('\\' :: c :: u)
  | other {c : Char} {u : List Char} (hmark : c ≠ mark) (hescape : c ≠ '\\')
      (hu : UpToUnescaped mark u) :
      UpToUnescaped mark (c :: u)

/-- A text up to its first mark. -/
inductive UpTo (mark : List Char) : List Char → Prop
  | mark : UpTo mark mark
  | other {c : Char} {u : List Char} (hmark : ¬ mark <+: c :: u) (hu : UpTo mark u) :
      UpTo mark (c :: u)

/-- A text up to where the comment is closed that it stands in. Comments in it are closed before. -/
inductive UpToClosing : List Char → Prop
  | closing : UpToClosing ['*', '/']
  | nested {u v : List Char} (hu : UpToClosing u) (hv : UpToClosing v) :
      UpToClosing ('/' :: '*' :: (u ++ v))
  | other {c : Char} {u : List Char} (hclosing : ¬ ['*', '/'] <+: c :: u)
      (hopening : ¬ ['/', '*'] <+: c :: u)
      (hu : UpToClosing u) : UpToClosing (c :: u)

namespace Cover

/-- What follows the lead of a token, its end included, if that stands before `rest`. -/
def Body : Cover → List Char → List Char → Prop
  | .string, body, _ => UpToUnescaped '"' body
  | .raw n, body, _ => UpTo ('"' :: List.replicate n '#') body
  | .character, body, _ => UpToUnescaped '\'' body
  | .line, body, rest => UpTo ['\n'] body ∨ '\n' ∉ body ∧ rest = []
  | .block, body, _ => UpToClosing body

def Endless (k : Cover) (behind : List Char) : Prop :=
  ∀ body rest, behind = body ++ rest → ¬ k.Body body rest

def fault : Cover → ScanError
  | .block => .unterminatedComment
  | _ => .unterminatedString

/-- The state of a scan inside the token. -/
def mode : Cover → Mode
  | .string => .string
  | .raw n => .raw n
  | .character => .char
  | .line => .lineComment
  | .block => .blockComment 1

end Cover

/-- What code is made of. -/
inductive Grain where
  | covered (k : Cover) (lead body : List Char)
  | delimiter (c : Char)
  | plain (c : Char)

def Delimits (c : Char) : Prop := (∃ closer, closerOf? c = some closer) ∨ isCloser c = true

namespace Grain

def text : Grain → List Char
  | covered _ lead body => lead ++ body
  | delimiter c | plain c => [c]

def delimiters : Grain → List Char
  | delimiter c => [c]
  | _ => []

def Stands (p : Option Char) : Grain → List Char → Prop
  | covered k lead body, rest => k.Opens p lead (body ++ rest) ∧ k.Body body rest
  | delimiter c, _ => Delimits c
  | plain c, rest =>
    ¬ Delimits c ∧ ∀ k lead behind, c :: rest = lead ++ behind → ¬ Cover.Opens p k lead behind

end Grain

/-- Grains are read one behind the other. -/
def Row : Option Char → List Grain → List Char → Prop
  | _, [], _ => True
  | p, g :: gs, rest =>
    g.Stands p (gs.flatMap Grain.text ++ rest) ∧ Row (g.text.getLast?.or p) gs rest

theorem getLast?_append_or (u v : List Char) (p : Option Char) :
    (u ++ v).getLast?.or p = v.getLast?.or (u.getLast?.or p) := by
  rw [List.getLast?_append, Option.or_assoc]

theorem Row.append {p : Option Char} {gs hs : List Grain} {rest : List Char} :
    Row p (gs ++ hs) rest ↔
      Row p gs (hs.flatMap Grain.text ++ rest) ∧
        Row ((gs.flatMap Grain.text).getLast?.or p) hs rest := by
  induction gs generalizing p with
  | nil => simp [Row]
  | cons g gs ih =>
    simp only [List.cons_append, Row, ih, List.flatMap_cons, List.flatMap_append, List.append_assoc,
      getLast?_append_or, and_assoc]

/-! Every text is a row of grains, up to its end or to a token that goes on to its end -/

theorem Grain.text_ne_nil {g : Grain} {p : Option Char} {rest : List Char} (h : g.Stands p rest) :
    g.text ≠ [] := by
  cases g with
  | covered k lead body =>
    obtain ⟨hopens, -⟩ := h
    cases hopens <;> simp [Grain.text]
  | delimiter c => exact List.cons_ne_nil c []
  | plain c => exact List.cons_ne_nil c []

def Unclosed (p : Option Char) (k : Cover) (cs : List Char) : Prop :=
  ∃ lead behind, cs = lead ++ behind ∧ k.Opens p lead behind ∧ k.Endless behind

theorem exists_grain (p : Option Char) (c : Char) (cs : List Char) :
    (∃ g : Grain, ∃ rest, c :: cs = g.text ++ rest ∧ g.Stands p rest) ∨ ∃ k,
      Unclosed p k (c :: cs) := by
  by_cases hdelimits : Delimits c
  · exact .inl ⟨.delimiter c, cs, rfl, hdelimits⟩
  by_cases hopens : ∃ k lead behind, c :: cs = lead ++ behind ∧ Cover.Opens p k lead behind
  · obtain ⟨k, lead, behind, hcs, hopens⟩ := hopens
    by_cases hbody : ∃ body rest, behind = body ++ rest ∧ k.Body body rest
    · obtain ⟨body, rest, rfl, hbody⟩ := hbody
      exact .inl ⟨.covered k lead body, rest,
        by rw [hcs, Grain.text, List.append_assoc], hopens, hbody⟩
    · exact .inr ⟨k, lead, behind, hcs, hopens, fun body rest hsplit h =>
        hbody ⟨body, rest, hsplit, h⟩⟩
  · exact .inl ⟨.plain c, cs, rfl, hdelimits, fun k lead behind hcs h =>
      hopens ⟨k, lead, behind, hcs, h⟩⟩

theorem exists_row (p : Option Char) (cs : List Char) :
    ∃ gs rest, cs = gs.flatMap Grain.text ++ rest ∧ Row p gs rest ∧
    (rest = [] ∨ ∃ k, Unclosed ((gs.flatMap Grain.text).getLast?.or p) k rest) := by
  induction hlength : cs.length using Nat.strongRecOn generalizing cs p with
  | ind n ih =>
    subst hlength
    cases cs with
    | nil => exact ⟨[], [], rfl, trivial, .inl rfl⟩
    | cons c cs =>
      rcases exists_grain p c cs with ⟨g, more, hsplit, hg⟩ | hunclosed
      · have hpos := List.length_pos_iff.mpr (Grain.text_ne_nil hg)
        have hless : more.length < (c :: cs).length := by
          rw [hsplit, List.length_append]
          omega
        obtain ⟨gs, rest, rfl, hrow, hend⟩ := ih _ hless (g.text.getLast?.or p) more rfl
        refine ⟨g :: gs, rest, ?_, ⟨hg, hrow⟩, ?_⟩
        · rw [hsplit, List.flatMap_cons, List.append_assoc]
        · rw [List.flatMap_cons, getLast?_append_or]
          exact hend
      · exact ⟨[], c :: cs, rfl, trivial, .inr hunclosed⟩

end Templating.Code
