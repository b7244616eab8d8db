import Templating.Text.Blank
import Templating.Text.Name

/-! Blanks: no name has one, a text is its trimmed form with blanks around it, and of its lines only
blank ones and line ends are dropped. -/
namespace Templating.Text

section
variable {p : Char → Prop} [DecidablePred p]

-- what holds of the characters of a text is decided by going through the text, never through all
-- characters there are
instance (priority := high) decidableForallText (cs : List Char) : Decidable (∀ c ∈ cs, p c) :=
  List.decidableBAll p cs

instance (priority := high) decidableForallChar (c? : Option Char) : Decidable (∀ c ∈ c?, p c) :=
  Option.decidableForallMem c?

end

def blanks : List (Nat × Nat) :=
  [(0x9, 0xd), (0x20, 0x20), (0x85, 0x85), (0xa0, 0xa0), (0x1680, 0x1680), (0x2000, 0x200a),
    (0x2028, 0x2029),
    (0x202f, 0x202f), (0x205f, 0x205f), (0x3000, 0x3000)]

theorem mem_blanks {c : Char} (h : isBlank c = true) :
    ∃ b ∈ blanks, b.1 ≤ c.toNat ∧ c.toNat ≤ b.2 := by
  simp only [isBlank, Bool.or_eq_true, Bool.and_eq_true, decide_eq_true_eq, beq_iff_eq] at h
  simp only [blanks, List.mem_cons, List.not_mem_nil, or_false, exists_eq_or_imp, exists_eq_left]
  omega

def disjoint (rs : List (Nat × Nat)) : Bool :=
  rs.all fun r => blanks.all fun b => Nat.blt r.2 b.1 || Nat.blt b.2 r.1

theorem not_holds_of_disjoint {rs : Ranges} (h : disjoint rs.toList = true) {c : Char}
    (hc : isBlank c = true) :
    rs.holds c = false := by
  obtain ⟨b, hb, hfirst, hlast⟩ := mem_blanks hc
  rw [Ranges.holds, ← Array.any_toList, List.any_eq_false]
  intro r hr
  have hrow := List.all_eq_true.mp (List.all_eq_true.mp h r hr) b hb
  simp only [Nat.blt, Bool.or_eq_true, Nat.ble_eq] at hrow
  simp only [Bool.and_eq_true, decide_eq_true_eq]
  omega

theorem disjoint_alphabetic : disjoint Letter.alphabetic.toList = true := by decide +kernel

theorem disjoint_numeric : disjoint Letter.numeric.toList = true := by decide +kernel

theorem not_continuesName_of_isBlank {c : Char} (h : isBlank c = true) :
    continuesName c = false := by
  have halphabetic := not_holds_of_disjoint disjoint_alphabetic h
  have hnumeric := not_holds_of_disjoint disjoint_numeric h
  obtain ⟨b, hb, hfirst, hlast⟩ := mem_blanks h
  have hascii : c.isAlpha = false ∧ c.isDigit = false ∧ c ≠ '_' := by
    simp only [blanks, List.mem_cons, List.not_mem_nil, or_false] at hb
    refine ⟨?_, ?_, ?_⟩
    · delta Char.isAlpha Char.isUpper Char.isLower
      simp only [Bool.or_eq_false_iff, Bool.and_eq_false_iff, decide_eq_false_iff_not,
        UInt32.le_iff_toNat_le]
      have hval : c.val.toNat = c.toNat := rfl
      simp only [hval]
      rcases hb with rfl | rfl | rfl | rfl | rfl | rfl | rfl | rfl | rfl | rfl <;>
        simp at hfirst hlast ⊢ <;> omega
    · delta Char.isDigit
      simp only [Bool.and_eq_false_iff, decide_eq_false_iff_not, UInt32.le_iff_toNat_le]
      have hval : c.val.toNat = c.toNat := rfl
      simp only [hval]
      rcases hb with rfl | rfl | rfl | rfl | rfl | rfl | rfl | rfl | rfl | rfl <;>
        simp at hfirst hlast ⊢ <;> omega
    · rintro rfl
      cases h
  simp [continuesName, isAlphanumeric, isAlphabetic, isNumeric, halphabetic, hnumeric, hascii]

theorem blank_of_mem_takeWhile {cs : List Char} {c : Char} (h : c ∈ cs.takeWhile isBlank) :
    isBlank c = true :=
  List.all_eq_true.mp List.all_takeWhile c h

theorem exists_dropEndWhile (p : Char → Bool) (cs : List Char) :
    ∃ b, cs = dropEndWhile p cs ++ b ∧ (∀ c ∈ b, p c = true) ∧ ∀ c ∈ (dropEndWhile p cs).getLast?,
      p c = false := by
  refine ⟨(cs.reverse.takeWhile p).reverse, ?_, fun c hc =>
    List.all_eq_true.mp List.all_takeWhile c (List.mem_reverse.mp hc), ?_⟩
  · have h := congrArg List.reverse (List.takeWhile_append_dropWhile (p := p) (l := cs.reverse))
    rw [List.reverse_append, List.reverse_reverse] at h
    exact h.symm
  · intro c hc
    have hstop := List.head?_dropWhile_not p cs.reverse
    rw [dropEndWhile, List.getLast?_reverse] at hc
    rw [hc] at hstop
    simpa using hstop

theorem exists_trimEnd (cs : List Char) :
    ∃ b, cs = trimEnd cs ++ b ∧ ∀ c ∈ b, isBlank c = true := by
  obtain ⟨b, hb, hblank, -⟩ := exists_dropEndWhile isBlank cs
  exact ⟨b, hb, hblank⟩

theorem exists_trim (cs : List Char) :
    ∃ a b, cs = a ++ (trim cs ++ b) ∧ (∀ c ∈ a, isBlank c = true) ∧ ∀ c ∈ b, isBlank c = true := by
  obtain ⟨b, hb, hblank⟩ := exists_trimEnd (trimStart cs)
  refine ⟨cs.takeWhile isBlank, b, ?_, fun c hc => blank_of_mem_takeWhile hc, hblank⟩
  have h := (List.takeWhile_append_dropWhile (p := isBlank) (l := cs)).symm
  rw [show cs.dropWhile isBlank = trim cs ++ b from hb] at h
  exact h

/-! The first and the last character of a text that are not blanks -/

section
variable {b u cs rest : List Char} {c : Char}

theorem exists_first {l : List Char} (h : allBlank l = false) :
    ∃ a c r, l = a ++ c :: r ∧ (∀ e ∈ a, isBlank e = true) ∧ isBlank c = false := by
  induction l with
  | nil => cases h
  | cons x l ih =>
    cases hx : isBlank x with
    | true =>
      obtain ⟨a, c, r, rfl, ha, hc⟩ := ih (by simpa [allBlank, hx] using h)
      exact ⟨x :: a, c, r, rfl, List.forall_mem_cons.mpr ⟨hx, ha⟩, hc⟩
    | false => exact ⟨[], x, l, rfl, by simp, hx⟩

theorem exists_last {l : List Char} (h : allBlank l = false) :
    ∃ u c b, l = u ++ c :: b ∧ isBlank c = false ∧ ∀ e ∈ b, isBlank e = true := by
  have hreverse : allBlank l.reverse = false := by rwa [allBlank, List.all_reverse]
  obtain ⟨b, c, u, hl, hb, hc⟩ := exists_first hreverse
  refine ⟨u.reverse, c, b.reverse, ?_, hc, fun e he => hb e (List.mem_reverse.mp he)⟩
  simpa using congrArg List.reverse hl

theorem exists_of_blanks_append (hu : ∀ c ∈ u, isBlank c = true) (hc : isBlank c = false)
    (h : u ++ rest = b ++ c :: cs) :
    ∃ b', b = u ++ b' ∧ rest = b' ++ c :: cs := by
  rcases List.append_eq_append_iff.mp h with ⟨b', hb, hrest⟩ | ⟨t, hu', ht⟩
  · exact ⟨b', hb, hrest⟩
  cases t with
  | nil => exact ⟨[], by simpa using hu'.symm, by simpa using ht.symm⟩
  | cons e t =>
    obtain ⟨rfl, -⟩ := List.cons.inj ht
    rw [hu c (by simp [hu'])] at hc
    cases hc

theorem trimStart_append (hc : isBlank c = false) (b u : List Char) :
    trimStart (u ++ c :: b) = trimStart u ++ c :: b := by
  induction u with
  | nil => exact List.dropWhile_cons_of_neg (by simp [hc])
  | cons d u ih =>
    cases hd : isBlank d with
    | true => simpa [trimStart, hd] using ih
    | false => simp [trimStart, hd]

theorem trimEnd_append (hc : isBlank c = false) (hb : ∀ c ∈ b, isBlank c = true) (u : List Char) :
    trimEnd (u ++ c :: b) = u ++ [c] := by
  have hb' : ∀ c ∈ b.reverse, isBlank c = true := fun e he => hb e (List.mem_reverse.mp he)
  rw [trimEnd, dropEndWhile, List.reverse_append, List.reverse_cons, List.append_assoc,
    List.dropWhile_append_of_pos hb', List.singleton_append,
      List.dropWhile_cons_of_neg (by simp [hc])]
  simp

end

/-! Lines -/

/-- What ends a line, given the text after it. -/
def EndsLine (e rest : List Char) : Prop := e = ['\n'] ∨ e = ['\r', '\n'] ∨ e = [] ∧ rest = []

theorem exists_lines {cs : List Char} (h : cs ≠ []) :
    ∃ l e rest, cs = l ++ (e ++ rest) ∧ EndsLine e rest ∧ lines cs = l :: lines rest := by
  induction cs using lines.induct with
  | case1 => exact absurd rfl h
  | case2 cs => exact ⟨[], ['\n'], cs, rfl, .inl rfl, by simp [lines]⟩
  | case3 cs => exact ⟨[], ['\r', '\n'], cs, rfl, .inr (.inl rfl), by simp [lines]⟩
  | case4 c cs hfeed hreturn hnil ih =>
    have hcs : cs = [] := Decidable.byContradiction fun hcs => by
      obtain ⟨l, e, rest, -, -, hlines⟩ := ih hcs
      rw [hnil] at hlines
      cases hlines
    subst hcs
    exact ⟨[c], [], [], rfl, .inr (.inr ⟨rfl, rfl⟩), by simp [lines]⟩
  | case5 c cs hfeed hreturn l ls hcons ih =>
    have hcs : cs ≠ [] := by
      rintro rfl
      simp [lines] at hcons
    obtain ⟨l', e, rest, rfl, hend, hlines⟩ := ih hcs
    obtain ⟨rfl, rfl⟩ := List.cons.inj (hcons.symm.trans hlines)
    exact ⟨c :: l, e, rest, rfl, hend, by simp [lines, hcons]⟩

theorem EndsLine.blank {e rest : List Char} (h : EndsLine e rest) : ∀ c ∈ e, isBlank c = true := by
  rcases h with rfl | rfl | ⟨rfl, -⟩ <;> decide

theorem EndsLine.length_lt {l e rest : List Char} (h : EndsLine e rest)
    (hne : l ++ (e ++ rest) ≠ []) :
    rest.length < (l ++ (e ++ rest)).length := by
  have hpos := List.length_pos_iff.mpr hne
  rcases h with rfl | rfl | ⟨rfl, rfl⟩ <;> simp at hpos ⊢ <;> omega

theorem feed_not_mem_of_lines {cs l : List Char} (h : l ∈ lines cs) : '\n' ∉ l := by
  induction cs using lines.induct generalizing l with
  | case1 => simp [lines] at h
  | case2 cs ih | case3 cs ih =>
    simp only [lines, List.mem_cons] at h
    rcases h with rfl | h
    · exact List.not_mem_nil
    · exact ih h
  | case4 c cs hfeed hreturn hnil =>
    obtain rfl : l = [c] := by simpa [lines, hnil] using h
    simpa using fun h => hfeed h.symm
  | case5 c cs hfeed hreturn l' ls hcons ih =>
    have hlines : l = c :: l' ∨ l ∈ ls := by simpa [lines, hcons] using h
    rw [hcons] at ih
    rcases hlines with rfl | hl
    · simpa using ⟨fun h => hfeed h.symm, ih List.mem_cons_self⟩
    · exact ih (List.mem_cons_of_mem l' hl)

theorem allBlank_iff_lines (cs : List Char) :
    allBlank cs = true ↔ ∀ l ∈ lines cs, allBlank l = true := by
  induction hlength : cs.length using Nat.strongRecOn generalizing cs with
  | ind n ih =>
    by_cases hcs : cs = []
    · subst hcs
      simp [lines, allBlank]
    obtain ⟨l, e, rest, rfl, he, hlines⟩ := exists_lines hcs
    have hend : e.all isBlank = true := List.all_eq_true.mpr he.blank
    have hrest := ih rest.length (hlength ▸ he.length_lt hcs) rest rfl
    rw [hlines, List.forall_mem_cons, ← hrest, allBlank, allBlank, allBlank, List.all_append,
      List.all_append, hend, Bool.true_and,
      Bool.and_eq_true]

theorem exists_dropBlankEnds (ls : List (List Char)) :
    ∃ a b, ls = a ++ (dropBlankEnds ls ++ b) ∧ (∀ l ∈ a, allBlank l = true) ∧ ∀ l ∈ b,
      allBlank l = true := by
  have hmem : ∀ {ls : List (List Char)} {l : List Char}, l ∈ ls.takeWhile allBlank →
      allBlank l = true :=
    fun hl => List.all_eq_true.mp List.all_takeWhile _ hl
  refine ⟨ls.takeWhile allBlank, ((ls.dropWhile allBlank).reverse.takeWhile allBlank).reverse, ?_,
    fun l hl => hmem hl,
    fun l hl => hmem (List.mem_reverse.mp hl)⟩
  have hstart := (List.takeWhile_append_dropWhile (p := allBlank) (l := ls)).symm
  have hend := congrArg List.reverse
    (List.takeWhile_append_dropWhile (p := allBlank) (l := (ls.dropWhile allBlank).reverse))
  rw [List.reverse_append, List.reverse_reverse] at hend
  rw [dropBlankEnds, hend]
  exact hstart

end Templating.Text
