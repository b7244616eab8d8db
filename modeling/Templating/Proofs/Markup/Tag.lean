import Templating.Markup.Reading
import Templating.Proofs.Code.Scan
import Templating.Proofs.Markup.Places
import Templating.Proofs.Text.Cursor

/-! Tags are read as the automaton goes through them: a tag is recognised if it gets to an end, and
then what is made of its text is what the places say. -/
namespace Templating.Markup
open Text (Cursor isBlank)

/-! What pieces amount to -/

def Part.atoms (p : Part) : List Atom :=
  chars p.lead.toList ++
    match p.content with
    | .literal s => chars s.toList
    | .expression code => [.expression code]

def partAtoms (ps : List (Located Part)) : List Atom := ps.flatMap (·.val.atoms)

def Attribute.atoms (a : Attribute) : List Atom :=
  chars a.opening.toList ++ partAtoms a.parts ++ chars a.closing.toList

def Piece.atoms : Piece → List Atom
  | .text cs _ => chars cs
  | .node (.expression code) _ false => [.expression code]
  | .node (.attribute a) _ false => a.atoms
  | .node _ _ _ => [.other]

def flat (ps : List Piece) : List Atom := ps.flatMap Piece.atoms

theorem flat_append (ps qs : List Piece) : flat (ps ++ qs) = flat ps ++ flat qs :=
  List.flatMap_append

theorem flat_text (cs : List Char) (offset : Nat) : flat (Tag.text cs offset) = chars cs := by
  cases cs <;> simp [Tag.text, flat, Piece.atoms, chars]

variable {x : List Char} {p q : Place} {s u v r : List Sym} {c : Cursor} {n : Nat}

/-! Text that passes a test -/

def passes (f : Char → Bool) : Sym → Bool
  | .char c => f c
  | .hole => f '@'

theorem takeWhile_fill {f : Char → Bool} (hf : f '@' → ∀ c ∈ Sym.print x .hole, f c)
    (s : List Sym) :
    (fill x s).takeWhile f = fill x (s.takeWhile (passes f)) := by
  induction s with
  | nil => rfl
  | cons y s ih =>
    cases y with
    | char c =>
      cases hc : f c with
      | false => simp [fill, Sym.print, passes, hc]
      | true => simpa [fill, Sym.print, passes, hc] using ih
    | hole =>
      cases hc : f '@' with
      | false => simp [fill, Sym.print, passes, hc]
      | true =>
        have hall := hf hc
        rw [fill_cons, List.takeWhile_append_of_pos hall, ih]
        simp [passes, hc, fill_cons]

theorem dropWhile_fill {f : Char → Bool} (hf : f '@' → ∀ c ∈ Sym.print x .hole, f c)
    (s : List Sym) :
    (fill x s).dropWhile f = fill x (s.dropWhile (passes f)) := by
  have hsplit : fill x s = fill x (s.takeWhile (passes f)) ++ fill x (s.dropWhile (passes f)) := by
    rw [← fill_append, List.takeWhile_append_dropWhile]
  have htake := List.takeWhile_append_dropWhile (p := f) (l := fill x s)
  rw [takeWhile_fill hf] at htake
  exact List.append_cancel_left (htake.trans hsplit)

/-! Quoted values -/

theorem transition_hole (hx : ∀ c ∈ x, Code.plain c) (c : Cursor) (r : List Char) :
    Tag.transition c ('(' :: x ++ ')' :: r) = .expression (.ofList x) (x.length + 2) := by
  have hparen : Text.isAlphanumeric '(' = false := by decide
  have htrim : Text.trim x = x := Text.trim_eq_self fun c hc => Code.not_blank_of_plain (hx c hc)
  simp [Tag.transition, insideWord, hparen, Code.scan_plain hx, htrim]

def Tag.Draft.atoms (d : Tag.Draft) : List Atom := partAtoms d.parts ++ chars d.pending

theorem Tag.Draft.atoms_literal (d : Tag.Draft) (stop : Nat) :
    partAtoms (d.literal stop) = chars d.pending := by
  cases h : d.pending <;> simp [Draft.literal, h, partAtoms, Part.atoms, chars]

theorem partAtoms_append (ps qs : List (Located Part)) :
    partAtoms (ps ++ qs) = partAtoms ps ++ partAtoms qs :=
  List.flatMap_append

theorem Tag.Draft.atoms_expression (d : Tag.Draft) (code : String) (start stop : Nat) :
    (d.expression code start stop).atoms = d.atoms ++ [.expression code] := by
  unfold Draft.expression
  split
  · simp [Draft.atoms, partAtoms, Part.atoms, chars]
  · simp only [Draft.atoms, partAtoms_append, atoms_literal]
    simp [partAtoms, Part.atoms, chars]

/-- The way through a quoted value, up to its closing quote. -/
def closing (x : List Char) (quote : Char) : List Sym → Option (List Atom × List Sym)
  | [] => none
  | y :: s =>
    if y = .char quote then some ([], s) else
      lead ((Place.quoted quote).emit x y) (closing x quote s)

theorem cross_quoted (quote : Char) (s : List Sym) :
    cross x (.quoted quote) s = (closing x quote s).bind fun (as, r) =>
      lead (as ++ [.char quote]) (cross x .between r) := by
  induction s with
  | nil => rfl
  | cons y s ih =>
    by_cases hy : y = .char quote
    · subst hy
      rw [closing, if_pos rfl, cross_go (q := .between) (by simp [Place.advance])]
      rfl
    · have hgo : (Place.quoted quote).advance y = .go (.quoted quote) := by
        cases y with
        | char c =>
          have hc : c ≠ quote := fun h => hy (by rw [h])
          simp [Place.advance, hc]
        | hole => rfl
      rw [closing, if_neg hy, cross_go hgo, ih]
      cases closing x quote s with
      | none => rfl
      | some o => simp [lead, Function.comp_def]

/-- A reading that fails or succeeds as the way does, and has then read what the way reads after
something else. -/
def Meets {α : Type} (P : α → List Atom → List Sym → Prop) (before : List Atom) (o : Option α) :
    Option (List Atom × List Sym) → Prop
  | none => o = none
  | some (as, r) => ∃ a, o = some a ∧ P a (before ++ as) r

theorem Meets.lead {α : Type} {P : α → List Atom → List Sym → Prop} {before as : List Atom}
    {o : Option α} {w : Option (List Atom × List Sym)} (h : Meets P (before ++ as) o w) :
    Meets P before o (lead as w) := by
  cases w with
  | none => exact h
  | some w =>
    obtain ⟨a, ha, hp⟩ := h
    exact ⟨a, ha, by simpa using hp⟩

def ValueRead (x : List Char) (quote : Char) : Tag.Draft × Cursor → List Atom → List Sym → Prop :=
  fun (d, e) as r => d.atoms = as ∧ e.rest = quote :: fill x r

theorem value_meets (hx : ∀ c ∈ x, Code.plain c) {quote : Char} (hq : quote ≠ '@') (hs : Clean s)
    (hc : c.rest = fill x s) (hn : c.rest.length < n) (d : Tag.Draft) :
    Meets (ValueRead x quote) d.atoms (Tag.value quote n d c) (closing x quote s) := by
  induction s generalizing c n d with
  | nil =>
    obtain ⟨n, rfl⟩ := Nat.exists_eq_succ_of_ne_zero (Nat.ne_of_gt (Nat.zero_lt_of_lt hn))
    have hr : c.rest = [] := hc
    simp [Meets, closing, Tag.value, hr]
  | cons y s ih =>
    obtain ⟨n, rfl⟩ := Nat.exists_eq_succ_of_ne_zero (Nat.ne_of_gt (Nat.zero_lt_of_lt hn))
    have hclean : Clean s := fun z hz => hs z (List.mem_cons_of_mem y hz)
    /- Past one symbol the reading goes on with another draft. -/
    have hgo : ∀ (d' : Tag.Draft) (k : Nat), y ≠ .char quote → (c.forward (k + 1)).rest = fill x s →
        Tag.value quote (n + 1) d c = Tag.value quote n d' (c.forward (k + 1)) →
        d'.atoms = d.atoms ++ (Place.quoted quote).emit x y →
        Meets (ValueRead x quote) d.atoms (Tag.value quote (n + 1) d c)
          (closing x quote (y :: s)) := by
      intro d' k hy hr hv ha
      have hl : (c.forward (k + 1)).rest.length < n := by
        rw [hr]
        rw [hc, fill_cons, List.length_append] at hn
        have hpos : 0 < (y.print x).length := by cases y <;> simp [Sym.print]
        omega
      have hmeets := ih hclean hr hl d'
      rw [ha, ← hv] at hmeets
      rw [closing, if_neg hy]
      exact hmeets.lead
    cases y with
    | char k =>
      have hr : c.rest = k :: fill x s := hc
      have hk : k ≠ '@' := fun h => (hs _ (List.mem_cons_self ..)).1 (by rw [h])
      by_cases hkq : k = quote
      · subst hkq
        rw [closing, if_pos rfl]
        exact ⟨(d, c), by simp [Tag.value, hr], by simp, hr⟩
      · refine hgo { d with pending := d.pending ++ [k] } 0 (by simpa using hkq)
          (by simp [hr]) ?_ ?_
        · simp [Tag.value, hr, hkq, hk]
        · simp [Tag.Draft.atoms, Place.emit, chars]
    | hole =>
      have hr : c.rest = '@' :: ('(' :: x ++ ')' :: fill x s) := by simp [hc, fill_cons, Sym.print]
      refine hgo (d.expression (.ofList x) c.offset (c.forward (x.length + 2 + 1)).offset)
        (x.length + 2) (by simp) ?_ ?_ ?_
      · have hsplit : c.rest = ('@' :: '(' :: x ++ [')']) ++ fill x s := by simp [hr]
        simpa using Cursor.rest_forward_of_append hsplit
      · simp only [Tag.value, hr, transition_hole hx]
        simp [Ne.symm hq]
      · rw [Tag.Draft.atoms_expression]
        rfl

/-! One attribute at a time -/

namespace Tag

/- The places at which the attribute behind a cursor has its name, the end of that, its sign of
equality and its value. -/
def nameAt (c : Cursor) : Cursor := c.skip isBlank
def nameEnd (c : Cursor) : Cursor := (nameAt c).skip (!endsName ·)
def equalsAt (c : Cursor) : Cursor := (nameEnd c).skip isBlank
def valueAt (c : Cursor) : Cursor := ((equalsAt c).forward 1).skip isBlank

def nameOf (c : Cursor) : List Char := (nameAt c).rest.takeWhile (!endsName ·)
def leadOf (c : Cursor) : List Char := c.rest.take (c.rest.length - (valueAt c).rest.length)

def beginsName (k : Char) : Bool :=
  !(isBlank k || k == '>' || k == '/' || ['@', '"', '\'', '=', '<', '\x7b', '\x7d'].contains k)

theorem not_endsName {k : Char} (h : beginsName k) : endsName k = false := by
  simp only [beginsName, endsName, Bool.not_eq_true', Bool.or_eq_false_iff] at h ⊢
  simp_all

variable {markup : List Char} {offset : Nat} {k : Char} {cs ds : List Char}

theorem attributes_end (h : (nameAt c).rest = []) : attributes (n + 1) markup offset c = none := by
  have h : (c.past (c.rest.takeWhile isBlank)).rest = [] := h
  simp only [attributes, h]

theorem attributes_close (h : (nameAt c).rest = '>' :: cs) :
    attributes (n + 1) markup offset c =
      some (text (markup ++ c.rest.takeWhile isBlank ++ ['>']) offset, (nameAt c).forward 1) := by
  have h' : (c.past (c.rest.takeWhile isBlank)).rest = '>' :: cs := h
  simp only [attributes, h']
  rfl

theorem attributes_closeEmpty (h : (nameAt c).rest = '/' :: '>' :: cs) :
    attributes (n + 1) markup offset c =
      some (text (markup ++ c.rest.takeWhile isBlank ++ ['/', '>']) offset,
        (nameAt c).forward 2) := by
  have h' : (c.past (c.rest.takeWhile isBlank)).rest = '/' :: '>' :: cs := h
  simp only [attributes, h']
  rfl

theorem attributes_slash (h : (nameAt c).rest = '/' :: cs) (hcs : ∀ ds, cs ≠ '>' :: ds) :
    attributes (n + 1) markup offset c = none := by
  have h' : (c.past (c.rest.takeWhile isBlank)).rest = '/' :: cs := h
  have hname : (('/' :: cs).takeWhile (!endsName ·)).isEmpty = true := by simp [endsName]
  simp only [attributes, h', hname, if_true, ite_self]
  split
  · rfl
  · next hn => exact absurd (List.cons.inj hn).1 (by decide)
  · next hn => exact absurd (List.cons.inj hn).2 (hcs _)
  · rfl

theorem attributes_refuse (h : (nameAt c).rest = k :: cs)
    (hk : ['@', '"', '\'', '=', '<', '\x7b', '\x7d'].contains k) :
    attributes (n + 1) markup offset c = none := by
  have h' : (c.past (c.rest.takeWhile isBlank)).rest = k :: cs := h
  have hgt : k ≠ '>' := by rintro rfl; simp at hk
  have hslash : k ≠ '/' := by rintro rfl; simp at hk
  simp only [attributes, h']
  split
  · next hn => exact absurd hn (List.cons_ne_nil k cs)
  · next hn => exact absurd (List.cons.inj hn).1 hgt
  · next hn => exact absurd (List.cons.inj hn).1 hslash
  · next hn => rw [if_pos ((List.cons.inj hn).1 ▸ hk)]

def unquotes (c : Char) : Bool := !(isBlank c || c == '>')

def quotedValue (quote : Char) (c : Cursor) : Option (Draft × Cursor) :=
  let begun := (valueAt c).forward 1
  value quote (begun.rest.length + 1) { pendingAt := begun.offset } begun

def attributeOf (quote : Char) (c : Cursor) (d : Draft) (stop : Nat) : Attribute :=
  ⟨.ofList (nameOf c), .ofList (leadOf c ++ [quote]), quote.toString, d.parts ++ d.literal stop⟩

def attributeValue (n : Nat) (markup : List Char) (offset : Nat) (c : Cursor) :
    Option (List Piece × Cursor) :=
  match (valueAt c).rest with
  | [] => none
  | quote :: _ =>
    if quote == '"' || quote == '\'' then
      match quotedValue quote c with
      | none => none
      | some (d, e) =>
        let after := e.forward 1
        if d.parts.isEmpty then attributes n (markup ++ leadOf c ++ [quote] ++ d.pending ++ [quote])
          offset after
        else (attributes n [] after.offset after).map fun (ps, last) =>
          (text markup offset ++
            .node (.attribute (attributeOf quote c d e.offset)) ⟨c.offset, after.offset⟩ false ::
              ps, last)
    else attributes n (markup ++ leadOf c ++ (valueAt c).rest.takeWhile unquotes) offset
      ((valueAt c).skip unquotes)

theorem attributes_name (h : (nameAt c).rest = k :: cs) (hk : beginsName k) :
    attributes (n + 1) markup offset c =
      if (equalsAt c).rest.head? = some '=' then attributeValue n markup offset c
      else attributes n (markup ++ c.rest.takeWhile isBlank ++ nameOf c) offset (nameEnd c) := by
  have hend := not_endsName hk
  simp only [beginsName, Bool.not_eq_true', Bool.or_eq_false_iff] at hk
  have hgt : k ≠ '>' := by simpa using hk.1.1.2
  have hslash : k ≠ '/' := by simpa using hk.1.2
  have hne : (nameOf c).isEmpty = false := by simp [nameOf, h, hend]
  have hnameAt : c.past (c.rest.takeWhile isBlank) = nameAt c := rfl
  have hnameOf : (nameAt c).rest.takeWhile (!endsName ·) = nameOf c := rfl
  have hnameEnd : (nameAt c).past (nameOf c) = nameEnd c := rfl
  have hequals : (nameEnd c).skip isBlank = equalsAt c := rfl
  have hvalue : ((equalsAt c).forward 1).skip isBlank = valueAt c := rfl
  have hunquoted : (valueAt c).rest.takeWhile (fun y => !(isBlank y || y == '>')) =
      (valueAt c).rest.takeWhile unquotes := rfl
  have hskip : (valueAt c).past ((valueAt c).rest.takeWhile unquotes) = (valueAt c).skip unquotes :=
    rfl
  have hlead : c.rest.take (c.rest.length - (valueAt c).rest.length) = leadOf c := rfl
  have hquoted : ∀ q,
      value q (((valueAt c).forward 1).rest.length + 1)
      { pendingAt := ((valueAt c).forward 1).offset }
      ((valueAt c).forward 1) = quotedValue q c := fun _ => rfl
  simp only [attributes, hnameAt, hnameOf, hnameEnd, hequals, hvalue, hunquoted, hskip, hlead,
    hquoted]
  split
  · next hn => exact absurd (h.symm.trans hn) (List.cons_ne_nil k cs)
  · next hn => exact absurd (List.cons.inj (h.symm.trans hn)).1 hgt
  · next hn => exact absurd (List.cons.inj (h.symm.trans hn)).1 hslash
  · next hn =>
    rw [← (List.cons.inj (h.symm.trans hn)).1, if_neg (by simpa using hk.2), hne,
      if_neg Bool.false_ne_true]
    split
    · next r he =>
      rw [he, List.head?_cons, if_pos rfl, attributeValue]
      -- the two sides match the same value, but not by the same match
      cases (valueAt c).rest with
      | nil => rfl
      | cons quote r =>
        dsimp only
        cases quotedValue quote c with
        | none => rfl
        | some d => rfl
    · next he => rw [if_neg fun hh => (List.head?_eq_some_iff.mp hh).elim he]

theorem attributeValue_open (hv : (valueAt c).rest = k :: cs) (hk : k = '"' ∨ k = '\'')
    (h : quotedValue k c = none) :
    attributeValue n markup offset c = none := by
  have hquote : (k == '"' || k == '\'') = true := by simpa using hk
  simp only [attributeValue, hv, hquote, if_true, h]

theorem attributeValue_literal (hv : (valueAt c).rest = k :: cs) (hk : k = '"' ∨ k = '\'')
    {d : Draft} {e : Cursor} (h : quotedValue k c = some (d, e)) (hd : d.parts = []) :
    attributeValue n markup offset c =
      attributes n (markup ++ leadOf c ++ [k] ++ d.pending ++ [k]) offset (e.forward 1) := by
  have hquote : (k == '"' || k == '\'') = true := by simpa using hk
  simp only [attributeValue, hv, hquote, if_true, h, hd, List.isEmpty_nil]

theorem attributeValue_parts (hv : (valueAt c).rest = k :: cs) (hk : k = '"' ∨ k = '\'') {d : Draft}
    {e : Cursor} (h : quotedValue k c = some (d, e)) (hd : d.parts ≠ []) :
    attributeValue n markup offset c = (attributes n [] (e.forward 1).offset (e.forward 1)).map
      fun (ps, last) =>
      (text markup offset ++
        [.node (.attribute (attributeOf k c d e.offset)) ⟨c.offset, (e.forward 1).offset⟩ false] ++
        ps,
        last) := by
  have hquote : (k == '"' || k == '\'') = true := by simpa using hk
  have hempty : d.parts.isEmpty = false := by simpa using hd
  simp only [attributeValue, hv, hquote, if_true, h, hempty, Bool.false_eq_true, if_false,
    List.append_assoc,
    List.singleton_append]

theorem attributeValue_unquoted (hv : (valueAt c).rest = k :: cs) (hk : k ≠ '"' ∧ k ≠ '\'') :
    attributeValue n markup offset c =
      attributes n (markup ++ leadOf c ++ (valueAt c).rest.takeWhile unquotes) offset
        ((valueAt c).skip unquotes) := by
  have hquote : (k == '"' || k == '\'') = false := by simp [hk]
  simp only [attributeValue, hv, hquote, Bool.false_eq_true, if_false]

theorem attributeValue_end (hv : (valueAt c).rest = []) :
    attributeValue n markup offset c = none := by
  simp only [attributeValue, hv]

theorem leadOf_eq (h : c.rest = cs ++ (valueAt c).rest) : leadOf c = cs := by
  have hlen := congrArg List.length h
  rw [List.length_append] at hlen
  rw [leadOf, show c.rest.length - (valueAt c).rest.length = cs.length by omega, h, List.take_left]

end Tag

/-! The same on the way -/

theorem cross_takeWhile {f : Char → Bool} (hgo : ∀ y, passes f y → p.advance y = .go p)
    (hh : f '@' → p.hides) (s : List Sym) : cross x p s =
      lead (chars (fill x (s.takeWhile (passes f)))) (cross x p (s.dropWhile (passes f))) := by
  have hstay : ∀ y ∈ s.takeWhile (passes f), p.advance y = .go p :=
    fun y hy => hgo y (List.mem_takeWhile_imp hy)
  have hhide : Sym.hole ∈ s.takeWhile (passes f) → p.hides := by
    intro hm
    have hf : passes f .hole := List.mem_takeWhile_imp hm
    exact hh hf
  have hsplit := cross_stay (x := x) hstay (s.dropWhile (passes f))
  rwa [List.takeWhile_append_dropWhile, emit_eq_chars hhide] at hsplit

theorem head_dropWhile (f : Sym → Bool) (s : List Sym) :
    ∀ y ∈ (s.dropWhile f).head?, f y = false := by
  intro y hy
  have h := List.head?_dropWhile_not f s
  rw [hy] at h
  exact h

theorem cross_blanks (hp : p = .between ∨ p = .afterName ∨ p = .afterEquals) (s : List Sym) :
    cross x p s =
    lead (chars (fill x (s.takeWhile (passes isBlank))))
      (cross x p (s.dropWhile (passes isBlank))) := by
  refine cross_takeWhile (fun y hy => ?_) (fun h => absurd h (by decide)) s
  cases y with
  | char c =>
    have hc : isBlank c = true := hy
    rcases hp with rfl | rfl | rfl <;> simp [Place.advance, Place.begin, hc]
  | hole => exact absurd hy (by decide)

theorem begin_of_beginsName {k : Char} (h : Tag.beginsName k) :
    Place.begin k = .go .attributeName := by
  simp only [Tag.beginsName, Bool.not_eq_true', Bool.or_eq_false_iff] at h
  obtain ⟨⟨⟨hblank, hgt⟩, -⟩, hrefused⟩ := h
  simp only [Place.begin, hblank, hgt, hrefused, Bool.false_eq_true, if_false]

theorem cross_name {k : Char} (hk : Tag.beginsName k) (s : List Sym) :
    cross x .between (.char k :: s) =
    lead (chars (fill x ((Sym.char k :: s).takeWhile (passes (!Tag.endsName ·)))))
      (cross x .attributeName ((Sym.char k :: s).dropWhile (passes (!Tag.endsName ·)))) := by
  have hend : passes (!Tag.endsName ·) (.char k) = true := by simp [passes, Tag.not_endsName hk]
  have hgo : ∀ y, passes (!Tag.endsName ·) y →
      Place.attributeName.advance y = .go .attributeName := by
    intro y hy
    cases y with
    | char c =>
      have hc : Tag.endsName c = false := by simpa [passes] using hy
      simp only [Tag.endsName, Bool.or_eq_false_iff] at hc
      simp_all [Place.advance]
    | hole => exact absurd hy (by decide)
  have hbegin : Place.between.advance (.char k) = .go .attributeName := begin_of_beginsName hk
  rw [cross_go hbegin, cross_takeWhile hgo (by decide), lead_lead,
    List.takeWhile_cons, List.dropWhile_cons, if_pos hend, if_pos hend, fill_cons, chars_append]
  rfl

theorem cross_equals (h : s.dropWhile (passes isBlank) = .char '=' :: r) :
    cross x .attributeName s =
    lead (chars (fill x (s.takeWhile (passes isBlank)) ++ ['='])) (cross x .afterEquals r) := by
  have hequals : ∀ q : Place, q.advance (.char '=') = .go .afterEquals →
      cross x q (.char '=' :: r) = lead [.char '='] (cross x .afterEquals r) :=
        fun q hq => cross_go hq r
  cases s with
  | nil => simp at h
  | cons y s =>
    cases hy : passes isBlank y with
    | false =>
      obtain ⟨rfl, rfl⟩ : y = .char '=' ∧ s = r := by simpa [hy] using h
      rw [hequals _ (by decide)]
      simp [hy, fill, chars]
    | true =>
      obtain ⟨c, rfl, hc⟩ : ∃ c, y = .char c ∧ isBlank c := by
        cases y with
        | char c => exact ⟨c, rfl, hy⟩
        | hole => exact absurd hy (by decide)
      have hs : s.dropWhile (passes isBlank) = .char '=' :: r := by simpa [hy] using h
      rw [cross_go (q := .afterName) (by simp [Place.advance, hc]), cross_blanks (by simp), hs,
        hequals _ (by decide),
        lead_lead, lead_lead]
      simp [hy, fill_cons, chars, Sym.print, Place.emit]

theorem cross_afterName (h : (s.dropWhile (passes isBlank)).head? ≠ some (.char '=')) :
    cross x .afterName s = cross x .between s := by
  induction s with
  | nil => rfl
  | cons y s ih =>
    cases y with
    | hole => rfl
    | char c =>
      cases hc : isBlank c with
      | true =>
        have hs := ih (by simpa [passes, hc] using h)
        rw [cross_go (q := .afterName) (by simp [Place.advance, hc]), hs,
          cross_go (q := .between) (by simp [Place.advance, Place.begin, hc])]
        rfl
      | false =>
        have hne : c ≠ '=' := by simpa [passes, hc] using h
        have hsame : Place.afterName.advance (.char c) = Place.between.advance (.char c) := by
          simp [Place.advance, hc, hne]
        rw [cross, cross, hsame]
        rfl

theorem cross_noEquals (hs : Clean s) (he : ∀ y ∈ s.head?, passes (!Tag.endsName ·) y = false)
    (h : (s.dropWhile (passes isBlank)).head? ≠ some (.char '=')) :
    cross x .attributeName s = cross x .between s := by
  cases s with
  | nil => rfl
  | cons y s =>
    cases y with
    | hole => rfl
    | char c =>
      have hend : Tag.endsName c = true := by simpa [passes] using he _ rfl
      cases hc : isBlank c with
      | true =>
        rw [cross_go (q := .afterName) (by simp [Place.advance, hc]),
          cross_afterName (by simpa [passes, hc] using h),
          cross_go (q := .between) (by simp [Place.advance, Place.begin, hc])]
        rfl
      | false =>
        have hne : c ≠ '=' := by simpa [passes, hc] using h
        obtain ⟨hat, hslash⟩ := hs _ (List.mem_cons_self ..)
        have hsame : Place.attributeName.advance (.char c) = Place.between.advance (.char c) := by
          simp only [Tag.endsName, hc, Bool.false_or] at hend
          simp_all [Place.advance, Place.begin]
          rcases hend with rfl | rfl | rfl | rfl <;> rfl
        rw [cross, cross, hsame]
        rfl

theorem cross_wordEnd (hp : p = .tagName ∨ p = .unquoted)
    (h : ∀ y ∈ s.head?, ∃ c, y = .char c ∧ (isBlank c ∨ c = '>')) :
    cross x p s = cross x .between s := by
  cases s with
  | nil => rfl
  | cons y s =>
    obtain ⟨c, rfl, hc⟩ := h _ rfl
    have hsame : p.advance (.char c) = Place.between.advance (.char c) := by
      rcases hc with hc | rfl
      · rcases hp with rfl | rfl <;> simp [Place.advance, Place.begin, hc]
      · rcases hp with rfl | rfl <;> rfl
    rw [cross, cross, hsame]
    rfl

theorem print_hole_unquotes (hx : ∀ c ∈ x, Code.plain c) :
    ∀ c ∈ Sym.print x .hole, Tag.unquotes c := by
  intro c hc
  have hcases : c = '@' ∨ c = '(' ∨ c ∈ x ∨ c = ')' := by simpa [Sym.print] using hc
  rcases hcases with rfl | rfl | hc | rfl
  · decide
  · decide
  · have hgt : c ≠ '>' := Code.plain_ne (hx c hc) (by decide)
    simp [Tag.unquotes, Code.not_blank_of_plain (hx c hc), hgt]
  · decide

theorem cross_unquoted (hb : ∀ y ∈ s.head?, passes isBlank y = false)
    (hq : ∀ y ∈ s.head?, y ≠ .char '"' ∧ y ≠ .char '\'') : cross x .afterEquals s =
    lead (chars (fill x (s.takeWhile (passes Tag.unquotes))))
      (cross x .between (s.dropWhile (passes Tag.unquotes))) := by
  have hgo : ∀ y, passes Tag.unquotes y → Place.unquoted.advance y = .go .unquoted := by
    intro y hy
    cases y with
    | char c =>
      have hc : isBlank c = false ∧ c ≠ '>' := by simpa [passes, Tag.unquotes] using hy
      simp [Place.advance, hc]
    | hole => rfl
  have hend : ∀ s : List Sym, cross x .unquoted s =
    lead (chars (fill x (s.takeWhile (passes Tag.unquotes))))
      (cross x .between (s.dropWhile (passes Tag.unquotes))) := by
    intro s
    rw [cross_takeWhile hgo (fun _ => rfl), cross_wordEnd (.inr rfl)]
    intro y hy
    have hstop := head_dropWhile _ _ y hy
    cases y with
    | char c =>
      refine ⟨c, rfl, ?_⟩
      simpa [passes, Tag.unquotes, or_iff_not_imp_left] using hstop
    | hole => exact absurd hstop (by decide)
  cases s with
  | nil => rfl
  | cons y s =>
    have hy := hb _ rfl
    cases hu : passes Tag.unquotes y with
    | true =>
      have hbegin : Place.afterEquals.advance y = .go .unquoted := by
        obtain ⟨hdouble, hsingle⟩ := hq _ rfl
        cases y with
        | char c =>
          have hc : isBlank c = false ∧ c ≠ '>' := by simpa [passes, Tag.unquotes] using hu
          have hne : c ≠ '"' ∧ c ≠ '\'' := by simpa using And.intro hdouble hsingle
          simp [Place.advance, hc, hne]
        | hole => rfl
      rw [cross_go hbegin, hend, lead_lead, List.takeWhile_cons, List.dropWhile_cons, if_pos hu,
        if_pos hu, fill_cons,
        chars_append]
      cases y <;> rfl
    | false =>
      obtain rfl : y = .char '>' := by
        cases y with
        | char c =>
          have hblank : isBlank c = false := hy
          simpa [passes, Tag.unquotes, hblank] using hu
        | hole => exact absurd hu (by decide)
      rfl

theorem closing_suffix {quote : Char} {as : List Atom} (h : closing x quote s = some (as, r)) :
    ∃ u, s = u ++ .char quote :: r := by
  induction s generalizing as with
  | nil => simp [closing] at h
  | cons y s ih =>
    rw [closing] at h
    split at h
    · next hy =>
      obtain ⟨-, rfl⟩ : _ ∧ s = r := by simpa using h
      exact ⟨[], by rw [hy]; rfl⟩
    · obtain ⟨⟨bs, r'⟩, hc, he⟩ := Option.map_eq_some_iff.mp h
      obtain ⟨-, rfl⟩ : _ ∧ r' = r := by simpa using he
      obtain ⟨u, rfl⟩ := ih hc
      exact ⟨y :: u, rfl⟩

/-! Tags -/

def TagRead (x : List Char) : List Piece × Cursor → List Atom → List Sym → Prop :=
  fun (ps, e) as r => flat ps = as ∧ e.rest = fill x r

/-- Attributes and the end of a tag are read as the way from between them says, if
there is enough fuel. -/
def AttributesMeet (x : List Char) (n : Nat) : Prop :=
  ∀ (s : List Sym) (c : Cursor) (markup : List Char) (offset : Nat), Clean s → c.rest = fill x s →
    c.rest.length < n →
    Meets (TagRead x) (chars markup) (Tag.attributes n markup offset c) (cross x .between s)

theorem Clean.of_append (h : Clean (u ++ s)) : Clean s :=
  fun y hy => h y (List.mem_append_right u hy)

theorem Clean.dropWhile (h : Clean s) (f : Sym → Bool) : Clean (s.dropWhile f) :=
  fun y hy => h y ((List.dropWhile_sublist f).mem hy)

theorem rest_skip_fill {f : Char → Bool} (hf : f '@' → ∀ c ∈ Sym.print x .hole, f c)
    (hc : c.rest = fill x s) :
    (c.skip f).rest = fill x (s.dropWhile (passes f)) := by
  rw [Cursor.rest_skip, hc, dropWhile_fill hf]

theorem not_at (f : Char → Bool) (hf : f '@' = false) : f '@' → ∀ c ∈ Sym.print x .hole, f c := by
  simp [hf]

theorem Meets.map {as bs : List Atom} {o : Option (List Piece × Cursor)}
    {w : Option (List Atom × List Sym)}
    {front : List Piece} (h : Meets (TagRead x) as o w) (hfront : flat front ++ as = bs) :
    Meets (TagRead x) bs (o.map fun (ps, e) => (front ++ ps, e)) w := by
  cases w with
  | none =>
    have ho : o = none := h
    simp [Meets, ho]
  | some w =>
    obtain ⟨as', r⟩ := w
    obtain ⟨⟨ps, e⟩, rfl, hps, he⟩ := h
    exact ⟨(front ++ ps, e), rfl, by rw [flat_append, hps, ← hfront, List.append_assoc], he⟩

theorem atoms_attributeOf (quote : Char) (c : Cursor) (d : Tag.Draft) (stop : Nat) :
    (Tag.attributeOf quote c d stop).atoms = chars (Tag.leadOf c ++ [quote]) ++ d.atoms ++
      [.char quote] := by
  simp [Tag.attributeOf, Attribute.atoms, partAtoms_append, Tag.Draft.atoms_literal,
    Tag.Draft.atoms, chars]

theorem quoted_meets (hx : ∀ c ∈ x, Code.plain c) (ih : AttributesMeet x n) {k : Char}
    (hk : k = '"' ∨ k = '\'') (hs : Clean s) (hv : (Tag.valueAt c).rest = k :: fill x s)
      (hl : (Tag.valueAt c).rest.length ≤ n)
    (markup : List Char) (offset : Nat) :
    Meets (TagRead x) (chars (markup ++ Tag.leadOf c ++ [k])) (Tag.attributeValue n markup offset c)
      (cross x (.quoted k) s) := by
  have hat : k ≠ '@' := by rcases hk with rfl | rfl <;> decide
  have hr : ((Tag.valueAt c).forward 1).rest = fill x s := by simp [hv]
  have hvalue : Meets (ValueRead x k) [] (Tag.quotedValue k c) (closing x k s) :=
    value_meets hx hat hs hr (Nat.lt_add_one _) { pendingAt := ((Tag.valueAt c).forward 1).offset }
  rw [cross_quoted]
  cases hc : closing x k s with
  | none =>
    rw [hc] at hvalue
    exact Tag.attributeValue_open hv hk hvalue
  | some w =>
    obtain ⟨as, r⟩ := w
    rw [hc] at hvalue
    obtain ⟨⟨d, e⟩, hread, hd, he⟩ := hvalue
    obtain ⟨u, rfl⟩ := closing_suffix hc
    have hclean : Clean r := hs.of_append.of_append (u := [.char k])
    have hrest : (e.forward 1).rest = fill x r := by simp [he]
    have hlen : (e.forward 1).rest.length < n := by
      rw [hv, fill_append, fill_cons] at hl
      rw [hrest]
      simp only [Sym.print, List.length_cons, List.length_append] at hl
      omega
    refine Meets.lead ?_
    by_cases hparts : d.parts = []
    · have hpending : chars d.pending = as := by simpa [Tag.Draft.atoms, hparts, partAtoms] using hd
      have hmeets :=
        ih r (e.forward 1) (markup ++ Tag.leadOf c ++ [k] ++ d.pending ++ [k]) offset hclean
        hrest hlen
      have hchars : chars (markup ++ Tag.leadOf c ++ [k] ++ d.pending ++ [k]) =
          chars (markup ++ Tag.leadOf c ++ [k]) ++ (as ++ [.char k]) := by
        rw [← hpending]
        simp [chars]
      rw [Tag.attributeValue_literal hv hk hread hparts, ← hchars]
      exact hmeets
    · have hmeets := ih r (e.forward 1) [] (e.forward 1).offset hclean hrest hlen
      rw [Tag.attributeValue_parts hv hk hread hparts]
      refine hmeets.map ?_
      have hd : d.atoms = as := hd
      rw [flat_append, flat_text]
      simp [flat, Piece.atoms, atoms_attributeOf, hd, chars]

theorem attributeValue_meets (hx : ∀ c ∈ x, Code.plain c) (ih : AttributesMeet x n) (hs : Clean s)
    (hv : (Tag.valueAt c).rest = fill x s) (hb : ∀ y ∈ s.head?, passes isBlank y = false)
    (hl : (Tag.valueAt c).rest.length < n) (markup : List Char) (offset : Nat) :
    Meets (TagRead x) (chars (markup ++ Tag.leadOf c)) (Tag.attributeValue n markup offset c)
      (cross x .afterEquals s) := by
  by_cases hq : ∀ y ∈ s.head?, y ≠ .char '"' ∧ y ≠ .char '\''
  · rw [cross_unquoted hb hq]
    refine Meets.lead ?_
    cases s with
    | nil => exact Tag.attributeValue_end hv
    | cons y s =>
      obtain ⟨k, cs, hk, hne⟩ : ∃ k cs, (Tag.valueAt c).rest = k :: cs ∧ k ≠ '"' ∧ k ≠ '\'' := by
        have hy := hq _ rfl
        cases y with
        | char k => exact ⟨k, fill x s, hv, by simpa using hy⟩
        | hole => exact ⟨'@', _, hv, by decide⟩
      have hpass : Tag.unquotes '@' → ∀ c ∈ Sym.print x .hole, Tag.unquotes c :=
        fun _ => print_hole_unquotes hx
      have hrest := rest_skip_fill hpass hv
      have hle : ((Tag.valueAt c).skip Tag.unquotes).rest.length ≤ (Tag.valueAt c).rest.length := by
        rw [Cursor.rest_skip]
        exact (List.dropWhile_sublist _).length_le
      have hmeets :=
        ih _ _ (markup ++ Tag.leadOf c ++ (Tag.valueAt c).rest.takeWhile Tag.unquotes) offset
          (hs.dropWhile _) hrest (by omega)
      rw [hv, takeWhile_fill hpass] at hmeets
      rw [Tag.attributeValue_unquoted hk hne, hv, takeWhile_fill hpass, ← chars_append]
      exact hmeets
  · obtain ⟨k, s', rfl, hk⟩ : ∃ k s', s = .char k :: s' ∧ (k = '"' ∨ k = '\'') := by
      cases s with
      | nil => simp at hq
      | cons y s =>
        cases y with
        | char k => exact ⟨k, s, rfl, by simpa [or_iff_not_imp_left] using hq⟩
        | hole => simp at hq
    have hgo : Place.afterEquals.advance (.char k) = .go (.quoted k) := by
      rcases hk with rfl | rfl <;> rfl
    have hclean : Clean s' := hs.of_append (u := [.char k])
    rw [cross_go hgo]
    refine Meets.lead ?_
    rw [show (Place.afterEquals.emit x (.char k)) = chars [k] from rfl, ← chars_append]
    exact quoted_meets hx ih hk hclean hv hl.le markup offset

theorem head?_of_fill {k : Char} (hk : k ≠ '@') (h : (fill x s).head? = some k) :
    s.head? = some (.char k) := by
  cases s with
  | nil => simp [fill] at h
  | cons y s =>
    cases y with
    | char c => simpa [fill_cons, Sym.print] using h
    | hole => exact absurd (by simpa [fill_cons, Sym.print] using h) (Ne.symm hk)

theorem nameEnd_fill (hc : (Tag.nameEnd c).rest = fill x s)
    (hr : s.dropWhile (passes isBlank) = .char '=' :: r) :
    (Tag.equalsAt c).rest = '=' :: fill x r ∧ (Tag.valueAt c).rest =
      fill x (r.dropWhile (passes isBlank)) ∧
      (Tag.nameEnd c).rest = fill x (s.takeWhile (passes isBlank)) ++
        '=' :: (fill x (r.takeWhile (passes isBlank)) ++ (Tag.valueAt c).rest) := by
  have hequals : (Tag.equalsAt c).rest = '=' :: fill x r := by
    have h : (Tag.equalsAt c).rest = _ := rest_skip_fill (not_at isBlank (by decide)) hc
    rw [h, hr]
    rfl
  have hforward : ((Tag.equalsAt c).forward 1).rest = fill x r := by simp [hequals]
  have hvalue : (Tag.valueAt c).rest = _ := rest_skip_fill (not_at isBlank (by decide)) hforward
  refine ⟨hequals, hvalue, ?_⟩
  have hs := congrArg (fill x) (List.takeWhile_append_dropWhile (p := passes isBlank) (l := s))
  rw [fill_append, hr] at hs
  rw [hvalue, ← fill_append, List.takeWhile_append_dropWhile, hc]
  exact hs.symm

theorem attribute_meets (hx : ∀ c ∈ x, Code.plain c) (ih : AttributesMeet x n) {k : Char}
    (hk : Tag.beginsName k)
    (hs : Clean (.char k :: s)) (hc : (Tag.nameAt c).rest = fill x (.char k :: s))
      (hl : (Tag.nameAt c).rest.length ≤ n)
    (markup : List Char) (offset : Nat) :
    Meets (TagRead x) (chars (markup ++ c.rest.takeWhile isBlank))
      (Tag.attributes (n + 1) markup offset c)
      (cross x .between (.char k :: s)) := by
  have hname : Tag.nameOf c = fill x ((Sym.char k :: s).takeWhile (passes (!Tag.endsName ·))) := by
    rw [Tag.nameOf, hc]
    exact takeWhile_fill (not_at (!Tag.endsName ·) (by decide)) _
  have hpos : 0 < (Tag.nameOf c).length := by
    have hend : passes (!Tag.endsName ·) (.char k) = true := by simp [passes, Tag.not_endsName hk]
    simp [hname, hend, fill, Sym.print]
  have hnameEnd : (Tag.nameEnd c).rest = _ :=
    rest_skip_fill (not_at (!Tag.endsName ·) (by decide)) hc
  have hstops := head_dropWhile (passes (!Tag.endsName ·)) (.char k :: s)
  generalize hafter : (Sym.char k :: s).dropWhile (passes (!Tag.endsName ·)) = s' at hnameEnd hstops
  have hclean : Clean s' := hafter ▸ hs.dropWhile _
  have hnamed : Tag.nameOf c ++ (Tag.nameEnd c).rest = (Tag.nameAt c).rest :=
    Cursor.takeWhile_append_rest_skip _ _
  have hlen := congrArg List.length hnamed
  rw [List.length_append] at hlen
  rw [cross_name hk, hafter, ← hname, Tag.attributes_name hc hk]
  refine Meets.lead ?_
  rw [← chars_append]
  by_cases heq : (s'.dropWhile (passes isBlank)).head? = some (.char '=')
  · obtain ⟨r, hr⟩ := List.head?_eq_some_iff.mp heq
    obtain ⟨hequals, hvalue, hgap⟩ := nameEnd_fill hnameEnd hr
    have hcleanR : Clean r := (hr ▸ hclean.dropWhile (passes isBlank)).of_append (u := [.char '='])
    have hlt : (Tag.valueAt c).rest.length < n := by
      rw [hgap] at hlen
      simp only [List.length_append, List.length_cons] at hlen
      omega
    have hlead : Tag.leadOf c = c.rest.takeWhile isBlank ++ Tag.nameOf c ++
        (fill x (s'.takeWhile (passes isBlank)) ++ ['=']) ++
          fill x (r.takeWhile (passes isBlank)) := by
      refine Tag.leadOf_eq ?_
      have hblanks : c.rest.takeWhile isBlank ++ (Tag.nameAt c).rest = c.rest :=
        Cursor.takeWhile_append_rest_skip _ _
      rw [← hnamed, hgap] at hblanks
      simpa using hblanks.symm
    have hmeets :=
      attributeValue_meets hx ih (hcleanR.dropWhile _) hvalue (head_dropWhile _ r) hlt markup offset
    rw [hequals, List.head?_cons, if_pos rfl, cross_equals hr, cross_blanks (.inr (.inr rfl))]
    refine Meets.lead (Meets.lead ?_)
    simpa only [hlead, chars_append, List.append_assoc] using hmeets
  · have hhead : (Tag.equalsAt c).rest.head? ≠ some '=' := by
      intro h
      have hequals : (Tag.equalsAt c).rest = _ :=
        rest_skip_fill (not_at isBlank (by decide)) hnameEnd
      rw [hequals] at h
      exact heq (head?_of_fill (by decide) h)
    have hmeets :=
      ih s' (Tag.nameEnd c) (markup ++ c.rest.takeWhile isBlank ++ Tag.nameOf c) offset hclean
      hnameEnd (by omega)
    rw [if_neg hhead, cross_noEquals hclean hstops heq]
    exact hmeets

theorem attributes_meet (hx : ∀ c ∈ x, Code.plain c) (n : Nat) : AttributesMeet x n := by
  induction n with
  | zero => exact fun s c markup offset hs hc hn => absurd hn (Nat.not_lt_zero _)
  | succ n ih =>
    intro s c markup offset hs hc hn
    have hblank := takeWhile_fill (x := x) (not_at isBlank (by decide)) s
    have hat : (Tag.nameAt c).rest = _ := rest_skip_fill (not_at isBlank (by decide)) hc
    have hlen : (Tag.nameAt c).rest.length ≤ n := by
      have hle := (List.dropWhile_sublist (l := c.rest) isBlank).length_le
      rw [Tag.nameAt, Cursor.rest_skip]
      omega
    have hstops := head_dropWhile (passes isBlank) s
    have hclean := hs.dropWhile (passes isBlank)
    rw [cross_blanks (.inl rfl), ← hblank, ← hc]
    refine Meets.lead ?_
    rw [← chars_append]
    generalize s.dropWhile (passes isBlank) = s' at hat hstops hclean
    cases s' with
    | nil => exact Tag.attributes_end hat
    | cons y s' =>
      cases y with
      | hole => exact Tag.attributes_refuse hat (by decide)
      | char k =>
        have hb : isBlank k = false := hstops _ rfl
        obtain ⟨hat', hslash⟩ : k ≠ '@' ∧ k ≠ '/' := by simpa using hclean _ (List.mem_cons_self ..)
        by_cases hgt : k = '>'
        · subst hgt
          rw [cross_close (by rfl), Tag.attributes_close hat]
          refine ⟨_, rfl, ?_, by simp [hat, fill_cons, Sym.print]⟩
          rw [flat_text, chars_append]
          rfl
        · cases hk : ['@', '"', '\'', '=', '<', '\x7b', '\x7d'].contains k with
          | true =>
            have hfail : Place.between.advance (.char k) = .fail := by
              have hgt : (k == '>') = false := by simpa using hgt
              simp only [Place.advance, Place.begin, hb, hgt, hk, Bool.false_eq_true, if_false,
                if_true]
            rw [cross_fail hfail]
            exact Tag.attributes_refuse hat hk
          | false =>
            have hbegins : Tag.beginsName k := by simpa [Tag.beginsName, hb, hgt, hslash] using hk
            exact attribute_meets hx ih hbegins hclean hat hlen markup offset

theorem print_hole_names (hx : ∀ c ∈ x, Code.plain c) :
    ∀ c ∈ Sym.print x .hole, !Tag.endsTagName c := by
  intro c hc
  have hunquotes := print_hole_unquotes hx c hc
  have hslash : c ≠ '/' := by
    have hcases : c = '@' ∨ c = '(' ∨ c ∈ x ∨ c = ')' := by simpa [Sym.print] using hc
    rcases hcases with rfl | rfl | hc | rfl
    · decide
    · decide
    · exact Code.plain_ne (hx c hc) (by decide)
    · decide
  simpa [Tag.unquotes, Tag.endsTagName, hslash] using hunquotes

theorem cross_tagName (hs : Clean s) : cross x .tagName s =
    lead (chars (fill x (s.takeWhile (passes (!Tag.endsTagName ·)))))
      (cross x .between (s.dropWhile (passes (!Tag.endsTagName ·)))) := by
  have hgo : ∀ y, passes (!Tag.endsTagName ·) y → Place.tagName.advance y = .go .tagName := by
    intro y hy
    cases y with
    | char c =>
      have hc : (isBlank c = false ∧ c ≠ '>') ∧ c ≠ '/' := by
        simpa [passes, Tag.endsTagName] using hy
      simp [Place.advance, hc]
    | hole => rfl
  rw [cross_takeWhile hgo (fun _ => rfl), cross_wordEnd (.inl rfl)]
  intro y hy
  have hstop := head_dropWhile _ _ y hy
  have hslash := (hs.dropWhile _ y (List.mem_of_mem_head? hy)).2
  cases y with
  | char c =>
    refine ⟨c, rfl, ?_⟩
    have hne : c ≠ '/' := by simpa using hslash
    simpa [passes, Tag.endsTagName, hne, or_iff_not_imp_left] using hstop
  | hole => exact absurd hstop (by decide)

theorem tag_meets (hx : ∀ c ∈ x, Code.plain c) (hs : Clean s) (hc : c.rest = '<' :: fill x s) :
    Meets (TagRead x) [.char '<'] (Tag.read? c) (cross x .opening s) := by
  cases s with
  | nil => simp [Tag.read?, hc, fill, cross, Meets]
  | cons y s =>
    cases y with
    | hole =>
      have hat : '@'.isAlpha = false := by decide
      simp [Tag.read?, hc, fill_cons, Sym.print, hat, cross, Place.advance, Meets]
    | char k =>
      have hr : c.rest = '<' :: k :: fill x s := hc
      cases hk : k.isAlpha with
      | false => simp [Tag.read?, hr, hk, cross, Place.advance, Meets]
      | true =>
        have hplain : Code.plain k := by simp [Code.plain, Char.isAlphanum, hk]
        have hgt : k ≠ '>' := Code.plain_ne hplain (by decide)
        have hslash : k ≠ '/' := Code.plain_ne hplain (by decide)
        have hpass : passes (!Tag.endsTagName ·) (.char k) := by
          simp [passes, Tag.endsTagName, Code.not_blank_of_plain hplain, hgt, hslash]
        have hbegin : Place.opening.advance (.char k) = .go .tagName := by simp [Place.advance, hk]
        have hclean : Clean s := hs.of_append (u := [.char k])
        have hf : (c.forward 1).rest = fill x (.char k :: s) := by simp [hc]
        have hname : (c.forward 1).rest.takeWhile (!Tag.endsTagName ·) =
            k :: fill x (s.takeWhile (passes (!Tag.endsTagName ·))) := by
          rw [hf, takeWhile_fill fun _ => print_hole_names hx, List.takeWhile_cons, if_pos hpass]
          rfl
        have hrest := rest_skip_fill (f := (!Tag.endsTagName ·)) (fun _ => print_hole_names hx) hf
        rw [List.dropWhile_cons, if_pos hpass] at hrest
        have hlen : ((c.forward 1).skip (!Tag.endsTagName ·)).rest.length < c.rest.length + 1 := by
          have hle :=
            (List.dropWhile_sublist (l := (c.forward 1).rest) (!Tag.endsTagName ·)).length_le
          have hdrop : (c.forward 1).rest.length ≤ c.rest.length := by simp
          rw [Cursor.rest_skip]
          omega
        have hmeets :=
          attributes_meet hx _ _ _ ('<' :: (c.forward 1).rest.takeWhile (!Tag.endsTagName ·))
          c.offset
          (hclean.dropWhile _) hrest hlen
        have hread : Tag.read? c = Tag.attributes (c.rest.length + 1)
            ('<' :: (c.forward 1).rest.takeWhile (!Tag.endsTagName ·)) c.offset
            ((c.forward 1).skip (!Tag.endsTagName ·)) := by
          simp only [Tag.read?, hr, hk, if_true]
          rfl
        rw [hread, cross_go hbegin, cross_tagName hclean]
        refine Meets.lead (Meets.lead ?_)
        rw [hname] at hmeets ⊢
        exact hmeets

end Templating.Markup
