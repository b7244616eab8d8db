import Templating.Code.Grammar
import Templating.Proofs.Code.Lexing

/-! Names of code. Text from which other characters are filtered is not one for that: letters and
digits that may stand in names of files are more than code takes in a word. -/
namespace Templating.Code
open Lexeme

/-! Words -/

/-- Every range of the first set is within one of the second set, the ranges in order. -/
def within : List (Nat × Nat) → List (Nat × Nat) → Bool
  | [], _ => true
  | r :: rs, bs =>
    match bs.dropWhile fun b => Nat.blt b.2 r.2 with
    | [] => false
    | b :: bs => Nat.ble b.1 r.1 && within rs (b :: bs)

theorem exists_of_within {rs bs : List (Nat × Nat)} (h : within rs bs = true) {r : Nat × Nat}
    (hr : r ∈ rs) :
    ∃ b ∈ bs, b.1 ≤ r.1 ∧ r.2 ≤ b.2 := by
  induction rs generalizing bs with
  | nil => cases hr
  | cons r' rs ih =>
    unfold within at h
    split at h
    · cases h
    next b bs' hdrop =>
      obtain ⟨hfirst, hrest⟩ := Bool.and_eq_true_iff.mp h
      have hsub : ∀ d ∈ b :: bs', d ∈ bs :=
        fun d hd => (List.dropWhile_sublist _).subset (hdrop ▸ hd)
      rcases List.mem_cons.mp hr with rfl | hr
      · have hlast := List.head?_dropWhile_not (fun b => Nat.blt b.2 r.2) bs
        rw [hdrop, List.head?_cons] at hlast
        refine ⟨b, hsub b List.mem_cons_self, Nat.le_of_ble_eq_true hfirst, ?_⟩
        have hlast : ¬ Nat.ble (b.2 + 1) r.2 = true := Bool.not_eq_true _ ▸ hlast
        rw [Nat.ble_eq] at hlast
        omega
      · obtain ⟨d, hd, hinside⟩ := ih hrest hr
        exact ⟨d, hsub d hd, hinside⟩

theorem holds_of_within {rs rs' : Text.Ranges} (h : within rs.toList rs'.toList = true) {c : Char}
    (hc : rs.holds c = true) :
    rs'.holds c = true := by
  rw [Text.Ranges.holds, ← Array.any_toList, List.any_eq_true] at hc ⊢
  obtain ⟨r, hr, hrow⟩ := hc
  obtain ⟨b, hb, hfirst, hlast⟩ := exists_of_within h hr
  refine ⟨b, hb, ?_⟩
  simp only [Bool.and_eq_true, decide_eq_true_eq] at hrow ⊢
  omega

def beside (rs : List (Nat × Nat)) (n : Nat) : Bool :=
  rs.all fun r => Nat.blt n r.1 || Nat.blt r.2 n

theorem not_holds_of_beside {rs : Text.Ranges} {c : Char} (h : beside rs.toList c.toNat = true) :
    rs.holds c = false := by
  rw [Text.Ranges.holds, ← Array.any_toList, List.any_eq_false]
  intro r hr
  have hrow := List.all_eq_true.mp h r hr
  simp only [Nat.blt, Bool.or_eq_true, Nat.ble_eq] at hrow
  simp only [Bool.and_eq_true, decide_eq_true_eq]
  omega

theorem toNat_of_isAlpha {c : Char} (h : c.isAlpha = true) : 0x40 < c.toNat ∧ c.toNat < 0x80 := by
  have hval : c.val.toNat = c.toNat := rfl
  delta Char.isAlpha Char.isUpper Char.isLower at h
  simp only [ge_iff_le, UInt32.le_iff_toNat_le, hval, Bool.or_eq_true, Bool.and_eq_true,
    decide_eq_true_eq, Char.reduceVal,
    UInt32.reduceToNat] at h
  omega

theorem toNat_of_isDigit {c : Char} (h : c.isDigit = true) : c.toNat < 0x40 := by
  have hlast : c.toNat ≤ '9'.toNat := (Char.isDigit_iff_toNat.mp h).2
  have hnine : '9'.toNat = 0x39 := rfl
  omega

theorem not_continuesName_of_beside {c : Char} (hfar : 0x80 ≤ c.toNat)
    (halphabetic : beside Text.Letter.alphabetic.toList c.toNat = true)
    (hnumeric : beside Text.Letter.numeric.toList c.toNat = true) :
    Text.continuesName c = false := by
  have hletter : c.isAlpha = false :=
    Bool.eq_false_iff.mpr fun h => absurd (toNat_of_isAlpha h).2 (by omega)
  have hdigit : c.isDigit = false :=
    Bool.eq_false_iff.mpr fun h => absurd (toNat_of_isDigit h) (by omega)
  have hmark : (c == '_') = false := by
    rw [beq_eq_false_iff_ne]
    rintro rfl
    exact absurd hfar (by decide)
  rw [Text.continuesName, Text.isAlphanumeric, Text.isAlphabetic, Text.isNumeric, hletter,
    hdigit, hmark,
    not_holds_of_beside halphabetic, not_holds_of_beside hnumeric, Bool.and_false]
  rfl

theorem not_isDigit_of_startsWord {c : Char} (h : startsWord c = true) : c.isDigit = false := by
  simp only [startsWord, Bool.or_eq_true, Bool.and_eq_true, beq_iff_eq, decide_eq_true_eq] at h
  rw [Bool.eq_false_iff]
  intro hdigit
  have hless := toNat_of_isDigit hdigit
  rcases h with (rfl | h) | ⟨h, -⟩
  · exact absurd hdigit (by decide)
  · exact absurd (toNat_of_isAlpha h).1 (by omega)
  · omega

theorem continuesWord_of_startsWord {c : Char} (h : startsWord c = true) :
    continuesWord c = true := by
  have hwithin : within Text.Word.first.toList Text.Word.later.toList = true := by decide +kernel
  simp only [startsWord, continuesWord, Bool.or_eq_true, Bool.and_eq_true, Char.isAlphanum] at h ⊢
  rcases h with (h | h) | ⟨hfar, h⟩
  · exact .inl (.inl h)
  · exact .inl (.inr (.inl h))
  · exact .inr ⟨hfar, holds_of_within hwithin h⟩

/-- A word: a character that begins words, and such as go on with them. -/
def Worded (cs : List Char) : Prop :=
  cs.head?.any startsWord = true ∧ ∀ c ∈ cs, continuesWord c = true

/-! Tokens of text without other characters than those of names -/

section
variable {c : Char} {cs : List Char} {n : Nat} {pending : List Delimiter}

theorem Wordy.ne (h : Wordy cs) (hc : c ∈ cs) {d : Char} (hd : Text.continuesName d = false) :
    c ≠ d := by
  rintro rfl
  rw [h c hc] at hd
  cases hd

theorem Wordy.not_space (h : Wordy (c :: cs)) : isSpace c = false := by
  have hname : Text.continuesName c = true := h c List.mem_cons_self
  have hmark : ∀ n, 0x80 ≤ n → beside Text.Letter.alphabetic.toList n = true →
    beside Text.Letter.numeric.toList n = true →
      c.toNat ≠ n := by
    rintro _ hfar halphabetic hnumeric rfl
    rw [not_continuesName_of_beside hfar halphabetic hnumeric] at hname
    cases hname
  have hleft : c.toNat ≠ 0x200e := hmark _ (by decide) (by decide +kernel) (by decide +kernel)
  have hright : c.toNat ≠ 0x200f := hmark _ (by decide) (by decide +kernel) (by decide +kernel)
  simp only [isSpace, not_blank_of_plain (plain_of_continuesName hname), Bool.false_or,
    Bool.or_eq_false_iff, beq_eq_false_iff_ne]
  exact ⟨hleft, hright⟩

theorem tokensFrom_wordy (h : Wordy (c :: cs)) (n : Nat) (pending : List Delimiter) :
    tokensFrom (n + 1) pending (c :: cs) =
    match leaf (c :: cs) with
    | some (t, r) => (tokensFrom n pending r).map (t :: ·)
    | none => none := by
  have hne : ∀ d, Text.continuesName d = false → c ≠ d := fun d => h.ne List.mem_cons_self
  have hslash := hne '/' (by decide)
  refine tokensFrom_leaf h.not_space ?_ ?_ ?_ ?_
  · unfold comment
    split <;> first | rfl | next hcs => exact absurd (List.cons.inj hcs).1 hslash
  · unfold docComment
    split <;> first | rfl | next hcs => exact absurd (List.cons.inj hcs).1 hslash
  · unfold Delimiter.ofOpener?
    split <;> first | rfl | exact absurd rfl (hne _ (by decide))
  · unfold Delimiter.ofCloser?
    split <;> first | rfl | exact absurd rfl (hne _ (by decide))

theorem tokensFrom_wordy_ne_nil (h : Wordy cs) (hcs : cs ≠ []) :
    tokensFrom n pending cs ≠ some [] := by
  cases cs with
  | nil => exact absurd rfl hcs
  | cons c cs =>
    cases n with
    | zero =>
      have hnone : tokensFrom 0 pending (c :: cs) = none := by cases pending <;> rfl
      rw [hnone]
      simp
    | succ n =>
      rw [tokensFrom_wordy h]
      split
      · simp
      · simp

/-! The first token -/

theorem raw_wordy (h : Wordy cs) (f : Flavor) : raw f cs = none := by
  have hguards : cs.takeWhile (· == '#') = [] := by
    cases cs with
    | nil => rfl
    | cons c cs => simp [h.ne List.mem_cons_self (show Text.continuesName '#' = false by decide)]
  unfold raw
  simp only [hguards, List.length_nil, List.drop_zero]
  split
  · exact absurd rfl (h.ne List.mem_cons_self (by decide))
  · rfl

theorem number_of_startsWord (hc : startsWord c = true) : number (c :: cs) = none := by
  have hdigit := not_isDigit_of_startsWord hc
  have hzero : c ≠ '0' := by
    rintro rfl
    cases hdigit
  have hdecimal : digitsIn 10 true (c :: cs) = none := by
    have hten : ¬ hexValue c < 10 := by
      unfold hexValue
      rw [hdigit, if_neg Bool.false_ne_true]
      split <;> omega
    simp [digitsIn, hdigit, hten]
  have hinteger : integer (c :: cs) = none := by
    unfold integer
    split <;> first | exact hdecimal | next hcs => exact absurd (List.cons.inj hcs).1 hzero
  have hfloat : floatDigits (c :: cs) = none := by simp [floatDigits, hdigit]
  rw [number, hfloat, hinteger]
  rfl

theorem Wordy.of_append {a b : List Char} (h : Wordy (a ++ b)) : Wordy b :=
  fun c hc => h c (List.mem_append_right a hc)

theorem literal_wordy (h : Wordy (c :: cs)) (hc : startsWord c = true) :
    literal (c :: cs) = none := by
  have hquote : ∀ {d : Char}, d ∈ c :: cs → d ≠ '"' ∧ d ≠ '\'' :=
    fun hd => ⟨h.ne hd (by decide), h.ne hd (by decide)⟩
  have hnumber : number (c :: cs) = none := number_of_startsWord hc
  generalize c :: cs = text at h hquote hnumber
  unfold literal
  split
  · exact absurd rfl (hquote List.mem_cons_self).1
  · exact raw_wordy (h.of_append (a := ['r'])) _
  · exact absurd rfl (hquote (by simp : '"' ∈ _)).1
  · exact raw_wordy (h.of_append (a := ['b', 'r'])) _
  · exact absurd rfl (hquote (by simp : '\'' ∈ _)).2
  · exact absurd rfl (hquote (by simp : '"' ∈ _)).1
  · exact raw_wordy (h.of_append (a := ['c', 'r'])) _
  · exact absurd rfl (hquote List.mem_cons_self).2
  · exact hnumber

theorem startsLiteral_wordy (h : Wordy cs) : startsLiteral cs = false := by
  have hnone : ∀ p : String, (p.toList.any fun d => !Text.continuesName d) = true →
      p.toList.isPrefixOf cs = false := by
    intro p hp
    obtain ⟨d, hd, hno⟩ := List.any_eq_true.mp hp
    rw [Bool.eq_false_iff]
    intro hprefix
    have hname := h d ((List.isPrefixOf_iff_prefix.mp hprefix).subset hd)
    rw [hname] at hno
    cases hno
  rw [startsLiteral, List.any_eq_false]
  intro p hp
  rw [hnone p]
  · exact Bool.false_ne_true
  · revert p
    decide

theorem word_wordy (h : Wordy cs) : word cs = plainWord cs := by
  unfold word
  split
  · exact absurd rfl (h.ne (by simp : '#' ∈ _) (by decide))
  · rfl

theorem startsMark_wordy (h : Wordy (c :: cs)) : startsMark (c :: cs) = false := by
  have hmarks : ∀ d ∈ "~!@#$%^&*-=+|;:,<.>/?'".toList, Text.continuesName d = false := by decide
  have hmark : isMark c = false := by
    rw [Bool.eq_false_iff, isMark]
    exact fun hmem => h.ne List.mem_cons_self (hmarks c (List.contains_iff_mem.mp hmem)) rfl
  rw [startsMark, List.head?_cons, Option.any_some, hmark, Bool.and_false]

theorem leaf_wordy (h : Wordy (c :: cs)) (hliteral : literal (c :: cs) = none) :
    leaf (c :: cs) = (plainWord (c :: cs)).map fun (w, r) => (.word (.ofList w), r) := by
  have hquote : c ≠ '\'' := h.ne List.mem_cons_self (by decide)
  unfold leaf
  rw [hliteral, ← word_wordy h]
  dsimp only
  split
  next hcs => exact absurd (List.cons.inj hcs).1 hquote
  next hcs =>
    obtain ⟨rfl, rfl⟩ := List.cons.inj hcs
    rw [startsMark_wordy h, startsLiteral_wordy h, if_neg Bool.false_ne_true,
      if_neg Bool.false_ne_true]
  next hcs => cases hcs

theorem tokens?_wordy (h : Wordy cs) : tokens? cs = tokensFrom (cs.length + 1) [] cs := by
  have hmark : ¬ cs.head? = some '\ufeff' := by
    intro hhead
    have hno : Text.continuesName '\ufeff' = false :=
      not_continuesName_of_beside (by decide) (by decide +kernel) (by decide +kernel)
    exact h.ne (List.mem_of_head? hhead) hno rfl
  simp only [tokens?, beq_iff_eq, hmark, if_false]

theorem tokens?_word_iff (h : Wordy cs) {w : String} :
    tokens? cs = some [.word w] ↔ Worded cs ∧ w = .ofList cs := by
  rw [tokens?_wordy h]
  cases cs with
  | nil => exact ⟨nofun, fun hworded => absurd hworded.1.1 Bool.false_ne_true⟩
  | cons c cs =>
    have hstart : Worded (c :: cs) → startsWord c = true := And.left
    rw [tokensFrom_wordy h]
    cases hliteral : literal (c :: cs) with
    | some r =>
      have hleaf : ∃ s, leaf (c :: cs) = some (.literal s, r) := ⟨_, by unfold leaf; rw [hliteral]⟩
      obtain ⟨s, hleaf⟩ := hleaf
      have hno : ¬ Worded (c :: cs) := by
        intro hworded
        rw [literal_wordy h (hstart hworded)] at hliteral
        cases hliteral
      simp [hleaf, hno]
    | none =>
      rw [leaf_wordy h hliteral, plainWord]
      cases hc : startsWord c with
      | false =>
        have hno : ¬ Worded (c :: cs) := fun hworded => by simp [hstart hworded] at hc
        simp [hno]
      | true =>
        have hsplit := List.takeWhile_append_dropWhile (p := continuesWord) (l := cs)
        simp only [if_true, Option.map_some]
        by_cases hrest : cs.dropWhile continuesWord = []
        · rw [hrest, List.append_nil] at hsplit
          have hall : Worded (c :: cs) := by
            refine ⟨hc, List.forall_mem_cons.mpr ⟨continuesWord_of_startsWord hc, fun d hd => ?_⟩⟩
            rw [← hsplit] at hd
            exact List.all_eq_true.mp List.all_takeWhile d hd
          have hnil : tokensFrom (c :: cs).length [] [] = some [] := rfl
          rw [hrest, hsplit, hnil]
          simp [hall, eq_comm]
        · have hno : ¬ Worded (c :: cs) := by
            intro hworded
            refine hrest (List.dropWhile_eq_nil_iff.mpr fun d hd =>
              hworded.2 d (List.mem_cons_of_mem c hd))
          have hbehind : Wordy (cs.dropWhile continuesWord) := fun d hd =>
            h d (List.mem_cons_of_mem c ((List.dropWhile_sublist _).subset hd))
          have hmore : tokensFrom (cs.length + 1) [] (cs.dropWhile continuesWord) ≠ some [] :=
            tokensFrom_wordy_ne_nil hbehind hrest
          simp [hno, hmore]

theorem isName_iff (h : Wordy cs) :
    isName (.ofList cs) = true ↔ Worded cs ∧ Reader.isName (.ofList cs) = true := by
  have hname : isName (.ofList cs) = true ↔
      ∃ w, tokens? cs = some [.word w] ∧ Reader.isName w = true := by
    unfold isName
    rw [String.toList_ofList]
    split
    next w htokens => simp [htokens]
    next hno => simpa using fun w htokens => absurd htokens (hno w)
  simp [hname, tokens?_word_iff h]

end

end Templating.Code
