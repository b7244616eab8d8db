import Templating.Proofs.Code.Crossing

/-! Code but for its layout: its grains, and between which of them white space stands. White space
in a comment is layout, too, and white space in a literal is not. What ends a token is no blank, so
the token ends there whatever white space is in it. -/
namespace Templating.Code
open Text (isBlank)

/-- What there is in a text but for its layout. -/
inductive Mark where
  /-- A character of code. -/
  | code (c : Char)
  /-- A character of a comment. -/
  | remark (c : Char)
  /-- A string or a character as it is written. -/
  | literal (u : List Char)
  deriving DecidableEq

namespace Mark

def onLiteral (f : List Char → List Char) : Mark → Mark
  | literal u => literal (f u)
  | m => m

def shown (mark : Char → Mark) (c : Char) : Option Mark := if isBlank c then none else some (mark c)

theorem shown_blank {c : Char} (hc : isBlank c = true) (mark : Char → Mark) : shown mark c = none :=
  if_pos hc

theorem shown_solid {c : Char} (hc : isBlank c = false) (mark : Char → Mark) :
    shown mark c = some (mark c) := by
  rw [shown, hc, if_neg Bool.false_ne_true]

end Mark

def Cover.isLiteral : Cover → Bool
  | line | block => false
  | _ => true

namespace Grain

def marks : Grain → List (Option Mark)
  | covered k lead body =>
    if k.isLiteral then [some (.literal (lead ++ body))] else
      (lead ++ body).map (Mark.shown .remark)
  | delimiter c | plain c => [Mark.shown .code c]

def literal? : Grain → Option (List Char)
  | covered k lead body => if k.isLiteral then some (lead ++ body) else none
  | _ => none

end Grain

/-- The marks, each with whether white space stands before it. -/
def outlineFrom : Bool → List (Option Mark) → List (Bool × Mark)
  | _, [] => []
  | _, none :: ms => outlineFrom true ms
  | gap, some m :: ms => (gap, m) :: outlineFrom false ms

def gapAfter : Bool → List (Option Mark) → Bool
  | gap, [] => gap
  | _, none :: ms => gapAfter true ms
  | _, some _ :: ms => gapAfter false ms

def outline (gs : List Grain) : List (Bool × Mark) := outlineFrom true (gs.flatMap Grain.marks)

theorem outlineFrom_append (gap : Bool) (ms ns : List (Option Mark)) :
    outlineFrom gap (ms ++ ns) = outlineFrom gap ms ++ outlineFrom (gapAfter gap ms) ns := by
  induction ms generalizing gap with
  | nil => rfl
  | cons m ms ih =>
    cases m with
    | none => exact ih true
    | some m => exact congrArg (List.cons (gap, m)) (ih false)

/-! White space for white space -/

/-- A text of blanks that is not empty. -/
structure Gap (b : List Char) : Prop where
  ne : b ≠ []
  blank : ∀ c ∈ b, isBlank c = true

/-- What is true of a text and stays so if other white space stands in a place
where there is some. -/
def Spacious (P : List Char → Prop) : Prop :=
  ∀ ⦃x b d y : List Char⦄, Gap b → Gap d → P (x ++ (b ++ y)) → P (x ++ (d ++ y))

section
variable {b d x y u v w : List Char} {c mark : Char}

theorem Gap.exists_cons (h : Gap b) : ∃ c r, b = c :: r ∧ isBlank c = true := by
  obtain ⟨c, r, rfl⟩ := List.exists_cons_of_ne_nil h.ne
  exact ⟨c, r, rfl, h.blank c List.mem_cons_self⟩

theorem ne_of_blank {e : Char} (hc : isBlank c = true) (he : isBlank e = false) : c ≠ e := by
  rintro rfl
  rw [hc] at he
  cases he

theorem prefix_of_prefix_gap (hw : ∀ c ∈ w, isBlank c = false) (hd : Gap d)
    (h : w <+: x ++ (d ++ y)) : w <+: x := by
  rcases List.prefix_or_prefix_of_prefix h (List.prefix_append x (d ++ y)) with hx | ⟨t, rfl⟩
  · exact hx
  cases t with
  | nil => exact ⟨[], by simp⟩
  | cons e t =>
    obtain ⟨c, r, rfl, hc⟩ := hd.exists_cons
    have htail : e :: t <+: (c :: r) ++ y := (List.prefix_append_right_inj x).mp h
    obtain ⟨rfl, -⟩ := List.cons_prefix_cons.mp htail
    have he := hw e (List.mem_append_right x List.mem_cons_self)
    rw [hc] at he
    cases he

theorem not_prefix_respaced (hw : ∀ c ∈ w, isBlank c = false) (hd : Gap d)
    (h : ¬ w <+: x ++ (b ++ y)) :
    ¬ w <+: x ++ (d ++ y) :=
  fun hpre => h ((prefix_of_prefix_gap hw hd hpre).trans (List.prefix_append x (b ++ y)))

/-! Up to a mark -/

section
variable {marks : List Char} (hmarks : ∀ c ∈ marks, isBlank c = false)
include hmarks

theorem not_prefix_blank (hne : marks ≠ []) (hc : isBlank c = true) (u : List Char) :
    ¬ marks <+: c :: u := by
  obtain ⟨e, r, rfl⟩ := List.exists_cons_of_ne_nil hne
  intro h
  obtain ⟨rfl, -⟩ := List.cons_prefix_cons.mp h
  have he := hmarks e List.mem_cons_self
  rw [hc] at he
  cases he

theorem upTo_blanks (hne : marks ≠ []) (hb : ∀ c ∈ b, isBlank c = true) :
    UpTo marks (b ++ u) ↔ UpTo marks u := by
  induction b with
  | nil => exact Iff.rfl
  | cons c b ih =>
    have hc := hb c List.mem_cons_self
    have hfront := not_prefix_blank hmarks hne hc (b ++ u)
    rw [← ih fun e he => hb e (List.mem_cons_of_mem c he)]
    constructor
    · intro h
      generalize hall : c :: b ++ u = v at h
      cases h with
      | mark => exact absurd (hall ▸ List.prefix_refl _) hfront
      | other _ hu =>
        obtain ⟨-, rfl⟩ := List.cons.inj hall
        exact hu
    · exact UpTo.other hfront

theorem spacious_upTo (hne : marks ≠ []) : Spacious (UpTo marks) := by
  intro x b d y hb hd h
  induction x with
  | nil => exact (upTo_blanks hmarks hne hd.blank).mpr ((upTo_blanks hmarks hne hb.blank).mp h)
  | cons c x ih =>
    generalize hall : c :: x ++ (b ++ y) = v at h
    cases h with
    | mark =>
      obtain ⟨e, r, rfl, he⟩ := hb.exists_cons
      have hmem := hmarks e (by simp [← hall])
      rw [he] at hmem
      cases hmem
    | other hmark hu =>
      obtain ⟨rfl, rfl⟩ := List.cons.inj hall
      exact .other (not_prefix_respaced (x := c :: x) hmarks hd hmark) (ih hu)

end

/-! Up to a mark that is not escaped -/

section
variable (hmark : isBlank mark = false)
include hmark

theorem upToUnescaped_cons_blank (hc : isBlank c = true) : UpToUnescaped mark (c :: u) ↔
    UpToUnescaped mark u := by
  constructor
  · intro h
    cases h with
    | mark => exact absurd rfl (ne_of_blank hc hmark)
    | escaped => cases hc
    | other _ _ hu => exact hu
  · exact .other (ne_of_blank hc hmark) (ne_of_blank hc (by decide))

theorem upToUnescaped_blanks (hb : ∀ c ∈ b, isBlank c = true) :
    UpToUnescaped mark (b ++ u) ↔ UpToUnescaped mark u := by
  induction b with
  | nil => exact Iff.rfl
  | cons c b ih =>
    rw [List.cons_append, upToUnescaped_cons_blank hmark (hb c List.mem_cons_self),
      ih fun e he => hb e (List.mem_cons_of_mem c he)]

theorem spacious_upToUnescaped : Spacious (UpToUnescaped mark) := by
  intro x b d y hb hd h
  generalize hall : x ++ (b ++ y) = v at h
  induction h generalizing x with
  | mark =>
    obtain ⟨e, r, rfl, he⟩ := hb.exists_cons
    obtain rfl : e = mark := by
      have hmem : e ∈ [mark] := by simp [← hall]
      exact List.mem_singleton.mp hmem
    rw [he] at hmark
    cases hmark
  | @escaped c u hu ih =>
    obtain ⟨e, r, rfl, he⟩ := hb.exists_cons
    obtain ⟨f, s, rfl, hf⟩ := hd.exists_cons
    rcases x with _ | ⟨a, _ | ⟨a', x⟩⟩
    · obtain ⟨rfl, -⟩ := List.cons.inj hall
      cases he
    · -- the first blank is escaped, and no other
      obtain ⟨rfl, htail⟩ := List.cons.inj hall
      obtain ⟨rfl, rfl⟩ := List.cons.inj htail
      have hy :=
        (upToUnescaped_blanks hmark fun c hc => hb.blank c (List.mem_cons_of_mem e hc)).mp hu
      exact .escaped f ((upToUnescaped_blanks hmark fun c hc =>
        hd.blank c (List.mem_cons_of_mem f hc)).mpr hy)
    · obtain ⟨rfl, htail⟩ := List.cons.inj hall
      obtain ⟨rfl, hrest⟩ := List.cons.inj htail
      exact .escaped a' (ih hrest)
  | @other c u hne hescape hu ih =>
    cases x with
    | nil =>
      have hy : UpToUnescaped mark y := by
        rw [← upToUnescaped_blanks hmark hb.blank]
        exact hall ▸ .other hne hescape hu
      exact (upToUnescaped_blanks hmark hd.blank).mpr hy
    | cons a x =>
      obtain ⟨rfl, htail⟩ := List.cons.inj hall
      exact .other hne hescape (ih htail)

end

/-! Up to where a comment is closed -/

theorem UpToClosing.ends (h : UpToClosing u) : ∃ v, u = v ++ ['/'] := by
  induction h with
  | closing => exact ⟨['*'], rfl⟩
  | @nested u v _ _ _ ih =>
    obtain ⟨w, rfl⟩ := ih
    exact ⟨'/' :: '*' :: (u ++ w), by simp⟩
  | @other c u _ _ _ ih =>
    obtain ⟨w, rfl⟩ := ih
    exact ⟨c :: w, rfl⟩

theorem upToClosing_cons_blank (hc : isBlank c = true) : UpToClosing (c :: u) ↔ UpToClosing u := by
  have hpair : ∀ {a e : Char}, isBlank a = false → ¬ [a, e] <+: c :: u := fun ha h =>
    absurd (pair_prefix_iff.mp h).1 (ne_of_blank hc ha)
  constructor
  · intro h
    cases h with
    | closing => cases hc
    | nested => cases hc
    | other _ _ hu => exact hu
  · exact .other (hpair (by decide)) (hpair (by decide))

theorem upToClosing_blanks (hb : ∀ c ∈ b, isBlank c = true) :
    UpToClosing (b ++ u) ↔ UpToClosing u := by
  induction b with
  | nil => exact Iff.rfl
  | cons c b ih =>
    rw [List.cons_append, upToClosing_cons_blank (hb c List.mem_cons_self), ih fun e he =>
      hb e (List.mem_cons_of_mem c he)]

theorem gap_in_append (hb : ∀ c ∈ b, isBlank c = true) (hc : isBlank c = false)
    (h : (u ++ [c]) ++ v = x ++ (b ++ y)) :
    (∃ z, u ++ [c] = x ++ (b ++ z) ∧ y = z ++ v) ∨ ∃ z, x = (u ++ [c]) ++ z ∧
      v = z ++ (b ++ y) := by
  rcases List.append_eq_append_iff.mp h with ⟨z, hx, hv⟩ | ⟨z, hu, hz⟩
  · exact .inr ⟨z, hx, hv⟩
  rcases List.append_eq_append_iff.mp hz with ⟨t, ht, hy⟩ | ⟨t, hb', hv⟩
  · exact .inl ⟨t, by rw [hu, ht], hy⟩
  · cases z using List.reverseRecOn with
    | nil => exact .inr ⟨[], by simpa using hu.symm, by simpa using hz.symm⟩
    | append_singleton z e =>
      -- the character at the end of the first text would be a blank
      rw [← List.append_assoc] at hu
      obtain rfl : c = e := by simpa using (List.append_inj' hu rfl).2
      rw [hb c (by simp [hb'])] at hc
      cases hc

theorem spacious_upToClosing : Spacious UpToClosing := by
  intro x b d y hb hd h
  generalize hall : x ++ (b ++ y) = v at h
  induction h generalizing x y with
  | closing =>
    obtain ⟨e, r, rfl, he⟩ := hb.exists_cons
    have hmem : e ∈ ['*', '/'] := by simp [← hall]
    simp only [List.mem_cons, List.not_mem_nil, or_false] at hmem
    rcases hmem with rfl | rfl <;> cases he
  | @nested u v hu hv ihu ihv =>
    obtain ⟨e, r, rfl, he⟩ := hb.exists_cons
    rcases x with _ | ⟨a, _ | ⟨a', x⟩⟩
    · obtain ⟨rfl, -⟩ := List.cons.inj hall
      cases he
    · obtain ⟨-, htail⟩ := List.cons.inj hall
      obtain ⟨rfl, -⟩ := List.cons.inj htail
      cases he
    · obtain ⟨rfl, htail⟩ := List.cons.inj hall
      obtain ⟨rfl, hrest⟩ := List.cons.inj htail
      obtain ⟨w, rfl⟩ := hu.ends
      have hslash : isBlank '/' = false := by decide
      rcases gap_in_append hb.blank hslash hrest.symm with ⟨z, hz, rfl⟩ | ⟨z, rfl, hz⟩
      · have hfirst := ihu hz.symm
        have hboth := UpToClosing.nested hfirst hv
        simpa using hboth
      · have hboth := UpToClosing.nested hu (ihv hz.symm)
        simpa using hboth
  | @other c u hclosing hopening hu ih =>
    cases x with
    | nil =>
      have hy : UpToClosing y := by
        rw [← upToClosing_blanks hb.blank]
        exact hall ▸ .other hclosing hopening hu
      exact (upToClosing_blanks hd.blank).mpr hy
    | cons a x =>
      obtain ⟨rfl, rfl⟩ := List.cons.inj hall
      exact .other (not_prefix_respaced (x := a :: x) (by decide) hd hclosing)
        (not_prefix_respaced (x := a :: x) (by decide) hd hopening) (ih rfl)

/-! Tokens -/

section
variable {k : Cover} {body rest : List Char}

theorem UpToUnescaped.ends (h : UpToUnescaped mark u) : ∃ v, u = v ++ [mark] := by
  induction h with
  | mark => exact ⟨[], rfl⟩
  | @escaped c u _ ih =>
    obtain ⟨v, rfl⟩ := ih
    exact ⟨'\\' :: c :: v, rfl⟩
  | @other c u _ _ _ ih =>
    obtain ⟨v, rfl⟩ := ih
    exact ⟨c :: v, rfl⟩

theorem UpTo.ends {marks : List Char} (h : UpTo marks u) : ∃ v, u = v ++ marks := by
  induction h with
  | mark => exact ⟨[], rfl⟩
  | @other c u _ _ ih =>
    obtain ⟨v, rfl⟩ := ih
    exact ⟨c :: v, rfl⟩

theorem guards_solid (n : Nat) : ∀ c ∈ '"' :: List.replicate n '#', isBlank c = false := by
  intro c hc
  rcases List.mem_cons.mp hc with rfl | hc
  · decide
  · obtain ⟨-, rfl⟩ := List.mem_replicate.mp hc
    decide

theorem Cover.Body.ends (h : k.Body body rest) (hk : k ≠ .line) :
    ∃ v c, body = v ++ [c] ∧ isBlank c = false := by
  cases k with
  | string =>
    obtain ⟨v, rfl⟩ := UpToUnescaped.ends h
    exact ⟨v, '"', rfl, by decide⟩
  | raw n =>
    obtain ⟨v, rfl⟩ := UpTo.ends h
    obtain ⟨w, c, hw⟩ : ∃ w c, '"' :: List.replicate n '#' = w ++ [c] :=
      ⟨_, _, (List.dropLast_concat_getLast (by simp)).symm⟩
    exact ⟨v ++ w, c, by rw [hw, List.append_assoc], guards_solid n c (by simp [hw])⟩
  | character =>
    obtain ⟨v, rfl⟩ := UpToUnescaped.ends h
    exact ⟨v, '\'', rfl, by decide⟩
  | line => exact absurd rfl hk
  | block =>
    obtain ⟨v, rfl⟩ := UpToClosing.ends h
    exact ⟨v, '/', rfl, by decide⟩

theorem Cover.Body.before (h : k.Body body rest) (hk : k ≠ .line) (rest' : List Char) :
    k.Body body rest' := by
  cases k with
  | line => exact absurd rfl hk
  | _ => exact h

theorem spacious_body (hk : k ≠ .line) (rest : List Char) : Spacious fun u => k.Body u rest := by
  cases k with
  | string => exact spacious_upToUnescaped (by decide)
  | raw n => exact spacious_upTo (guards_solid n) (List.cons_ne_nil _ _)
  | character => exact spacious_upToUnescaped (by decide)
  | line => exact absurd rfl hk
  | block => exact spacious_upToClosing

theorem upTo_feed (hu : '\n' ∉ u) : UpTo ['\n'] (u ++ ['\n']) := by
  induction u with
  | nil => exact .mark
  | cons c u ih =>
    simp only [List.mem_cons, not_or] at hu
    exact .other (fun h => hu.1 (List.cons_prefix_cons.mp h).1) (ih hu.2)

theorem UpTo.exists_feed (h : UpTo ['\n'] u) : ∃ v, u = v ++ ['\n'] ∧ '\n' ∉ v := by
  generalize hmark : ['\n'] = mark at h
  induction h with
  | mark =>
    subst hmark
    exact ⟨[], rfl, List.not_mem_nil⟩
  | @other c u hc hu ih =>
    obtain ⟨v, rfl, hv⟩ := ih
    subst hmark
    refine ⟨c :: v, rfl, fun hmem => ?_⟩
    rcases List.mem_cons.mp hmem with rfl | hmem
    · exact hc (List.prefix_append ['\n'] _)
    · exact hv hmem

end

/-! Comments in outline -/

theorem gapAfter_shown (mark : Char → Mark) (hc : isBlank c = false) (gap : Bool) (u : List Char) :
    gapAfter gap ((u ++ [c]).map (Mark.shown mark)) = false := by
  induction u generalizing gap with
  | nil => exact congrArg (fun x => gapAfter gap [x]) (Mark.shown_solid hc mark)
  | cons e u ih =>
    rw [List.cons_append, List.map_cons]
    cases he : isBlank e with
    | true => rw [Mark.shown_blank he, gapAfter, ih]
    | false => rw [Mark.shown_solid he, gapAfter, ih]

theorem outlineFrom_blanks (mark : Char → Mark) (hb : ∀ c ∈ b, isBlank c = true) (gap : Bool)
    (ms : List (Option Mark)) :
    outlineFrom gap (b.map (Mark.shown mark) ++ ms) = outlineFrom (gap || !b.isEmpty) ms := by
  induction b generalizing gap with
  | nil => simp
  | cons c b ih =>
    rw [List.map_cons, Mark.shown_blank (hb c List.mem_cons_self), List.cons_append, outlineFrom,
      ih fun e he => hb e (List.mem_cons_of_mem c he)]
    simp

theorem outlineFrom_append_gap (mark : Char → Mark) (hb : ∀ c ∈ b, isBlank c = true) (gap : Bool)
    (u : List Char) :
    outlineFrom gap ((u ++ b).map (Mark.shown mark)) =
      outlineFrom gap (u.map (Mark.shown mark)) := by
  have hend := outlineFrom_blanks mark hb (gapAfter gap (u.map (Mark.shown mark))) []
  rw [List.append_nil] at hend
  rw [List.map_append, outlineFrom_append, hend, outlineFrom, List.append_nil]

theorem gapAfter_append_gap (mark : Char → Mark) (hb : Gap b) (gap : Bool) (u : List Char) :
    gapAfter gap ((u ++ b).map (Mark.shown mark)) = true := by
  obtain ⟨d, c, rfl⟩ : ∃ d c, b = d ++ [c] := ⟨_, _, (List.dropLast_concat_getLast hb.ne).symm⟩
  rw [← List.append_assoc]
  induction u ++ d generalizing gap with
  | nil => exact congrArg (fun x => gapAfter gap [x]) (Mark.shown_blank (hb.blank c (by simp)) mark)
  | cons e x ih =>
    rw [List.cons_append, List.map_cons]
    cases Mark.shown mark e with
    | none => exact ih true
    | some m => exact ih false

theorem spacious_outline (mark : Char → Mark) (gap : Bool) (ms : List (Option Mark))
    (out : List (Bool × Mark)) :
    Spacious fun u => outlineFrom gap (u.map (Mark.shown mark) ++ ms) = out := by
  intro x b d y hb hd h
  have hgap : ∀ {b : List Char}, Gap b →
    outlineFrom gap ((x ++ (b ++ y)).map (Mark.shown mark) ++ ms) =
      outlineFrom gap (x.map (Mark.shown mark)) ++
        outlineFrom true (y.map (Mark.shown mark) ++ ms) := by
    intro b hb
    rw [List.map_append, List.map_append, List.append_assoc, List.append_assoc, outlineFrom_append,
      outlineFrom_blanks mark hb.blank,
      List.isEmpty_eq_false_iff.mpr hb.ne, Bool.not_false, Bool.or_true]
  rwa [hgap hd, ← hgap hb]

/-! White space as grains -/

section
variable {p : Option Char} {k : Cover} {lead behind rest : List Char} {g : Grain} {gs : List Grain}

theorem Cover.Opens.solid (h : k.Opens p lead behind) : ∀ c ∈ lead, isBlank c = false := by
  cases h with
  | @raw letters n behind hletters hp =>
    have hall : ∀ c ∈ letters ++ (List.replicate n '#' ++ ['"']), c ∈ ['r', 'b', '#', '"'] := by
      rcases hletters with rfl | rfl <;> simp +contextual [or_imp]
    have hsolid : ∀ c ∈ ['r', 'b', '#', '"'], isBlank c = false := by decide
    exact fun c hc => hsolid c (hall c hc)
  | _ => decide

theorem Delimits.solid (h : Delimits c) : isBlank c = false := by
  rcases h with ⟨x, hx⟩ | hc
  · unfold closerOf? at hx
    split at hx
    all_goals first | decide | cases hx
  · simp only [isCloser, Bool.or_eq_true, beq_iff_eq] at hc
    rcases hc with (rfl | rfl) | rfl <;> decide

theorem stands_blank (hc : isBlank c = true) (p : Option Char) (rest : List Char) :
    (Grain.plain c).Stands p rest := by
  refine ⟨fun h => ?_, fun k lead behind hsplit h => ?_⟩
  · rw [h.solid] at hc
    cases hc
  · obtain ⟨e, r, rfl⟩ := h.exists_cons
    obtain ⟨rfl, -⟩ := List.cons.inj hsplit
    rw [h.solid _ List.mem_cons_self] at hc
    cases hc

theorem eq_plain_of_blank (h : g.Stands p rest) (hc : isBlank c = true)
    (htext : g.text ++ u = c :: v) : g = .plain c := by
  cases g with
  | covered k lead body =>
    obtain ⟨e, r, rfl⟩ := h.1.exists_cons
    obtain ⟨rfl, -⟩ := List.cons.inj htext
    rw [h.1.solid _ List.mem_cons_self] at hc
    cases hc
  | delimiter d =>
    obtain ⟨rfl, -⟩ := List.cons.inj htext
    rw [Delimits.solid h] at hc
    cases hc
  | plain d => rw [(List.cons.inj htext).1]

theorem row_blanks (hb : ∀ c ∈ b, isBlank c = true) (p : Option Char) (rest : List Char) :
    Row p (b.map .plain) rest := by
  induction b generalizing p with
  | nil => trivial
  | cons c b ih =>
    exact ⟨stands_blank (hb c List.mem_cons_self) p _,
      ih (fun e he => hb e (List.mem_cons_of_mem c he)) _⟩

theorem Row.stands (h : Row p gs rest) (hg : g ∈ gs) : ∃ q r, g.Stands q r := by
  induction gs generalizing p with
  | nil => cases hg
  | cons f gs ih =>
    rcases List.mem_cons.mp hg with rfl | hg
    · exact ⟨_, _, h.1⟩
    · exact ih h.2 hg

theorem Row.exists_blanks (h : Row p gs rest) (hb : ∀ c ∈ b, isBlank c = true)
    (htext : gs.flatMap Grain.text = b ++ y) :
    ∃ hs, gs = b.map .plain ++ hs ∧ hs.flatMap Grain.text = y := by
  induction b generalizing p gs with
  | nil => exact ⟨gs, rfl, htext⟩
  | cons c b ih =>
    cases gs with
    | nil => cases htext
    | cons g gs =>
      have hg := eq_plain_of_blank h.1 (hb c List.mem_cons_self) htext
      subst hg
      obtain ⟨hs, rfl, hy⟩ :=
        ih h.2 (fun e he => hb e (List.mem_cons_of_mem c he)) (List.cons.inj htext).2
      exact ⟨hs, rfl, hy⟩

theorem text_blanks (b : List Char) : (b.map Grain.plain).flatMap Grain.text = b := by
  induction b with
  | nil => rfl
  | cons c b ih => exact congrArg (List.cons c) ih

theorem marks_blanks (b : List Char) :
    (b.map Grain.plain).flatMap Grain.marks = b.map (Mark.shown .code) := by
  induction b with
  | nil => rfl
  | cons c b ih => exact congrArg (List.cons _) ih

end

end

end Templating.Code
