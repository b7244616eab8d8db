import Templating.Code.Scan
import Templating.Text.Blank

/-! What a scan makes of the characters before code and of blanks in it. -/
namespace Templating.Code
variable {stop : Stop}

/-- Of what stands before code, only this counts: whether it could continue a name. -/
theorem scan_congr {p q : Option Char} (h : p.any Text.continuesName = q.any Text.continuesName)
    (cs : List Char) : scan stop p cs = scan stop q cs := by
  cases cs with
  | nil => rfl
  | cons c cs =>
    have hm : codeMove stop [] p c cs = codeMove stop [] q c cs := by simp only [codeMove, h]
    simp only [scan, scanFrom, move, hm]

theorem scan_space {p : Option Char} {cs code : List Char} (h : scan stop none cs = .ok code)
    (hs : ¬ isStop stop ' ' cs) : scan stop p (' ' :: cs) = .ok (' ' :: code) := by
  have hm : codeMove stop [] p ' ' cs = .go 0 .code [] := by
    simp [codeMove, hs, closerOf?, isCloser]
  have hn : (some ' ').any Text.continuesName = (none : Option Char).any Text.continuesName := by
    decide
  have hc : scan stop (some ' ') cs = .ok code := (scan_congr hn cs).trans h
  simp only [scan] at hc
  simp only [scan, scanFrom, move, hm, hc, scanFrom.prepend]

def plain (c : Char) : Bool := c.isAlphanum || c == '_' || (0x80 ≤ c.toNat && !Text.isBlank c)

theorem plain_ne {c d : Char} (h : plain c) (hd : plain d = false) : c ≠ d := by
  rintro rfl
  simp [hd] at h

theorem not_blank_of_plain {c : Char} (h : plain c) : Text.isBlank c = false := by
  cases hb : Text.isBlank c with
  | false => rfl
  | true =>
    have hn : c.isAlphanum = true ∨ c = '_' := by simpa [plain, hb] using h
    rcases hn with hn | rfl
    · delta Char.isAlphanum Char.isAlpha Char.isUpper Char.isLower Char.isDigit at hn
      simp only [Bool.or_eq_true, Bool.and_eq_true, decide_eq_true_eq, UInt32.le_iff_toNat_le] at hn
      simp only [Text.isBlank, Bool.or_eq_true, Bool.and_eq_true, decide_eq_true_eq,
        beq_iff_eq] at hb
      simp at hn
      omega
    · exact absurd hb (by decide)

section
variable {x : List Char} (h : ∀ c ∈ x, plain c)
include h

theorem rawGuards?_plain (r : List Char) : rawGuards? (x ++ ')' :: r) = none := by
  cases x with
  | nil => simp [rawGuards?]
  | cons d x =>
    have hd := h d (List.mem_cons_self ..)
    have hguard : d ≠ '#' := plain_ne hd (by decide)
    have hquote : d ≠ '"' := plain_ne hd (by decide)
    simp [rawGuards?, hguard, hquote]

theorem codeMove_plain {c : Char} (hc : plain c) (p : Option Char) (r : List Char) :
    codeMove (.closer ')') [] p c (x ++ ')' :: r) = .go 0 .code [] := by
  have hne : ∀ d, plain d = false → c ≠ d := fun d => plain_ne hc
  have hstop : isStop (.closer ')') c (x ++ ')' :: r) = false := by
    simpa [isStop] using hne ')' (by decide)
  have hopen : closerOf? c = none := by
    unfold closerOf?
    split <;> first | rfl | exact absurd rfl (hne _ (by decide))
  have hclose : isCloser c = false := by
    simp [isCloser, hne ')' (by decide), hne ']' (by decide), hne '\x7d' (by decide)]
  simp only [codeMove, hstop, hopen, hclose, Bool.and_false, Bool.false_eq_true, if_false]
  split
  · exact absurd rfl (hne '/' (by decide))
  · exact absurd rfl (hne '"' (by decide))
  · exact absurd rfl (hne '\'' (by decide))
  · simp [rawGuards?_plain h r]
  · split
    · next y hy =>
      cases x with
      | nil => simp at hy
      | cons d x =>
        obtain ⟨-, rfl⟩ := List.cons.inj hy
        simp [rawGuards?_plain (fun d hd => h d (List.mem_cons_of_mem _ hd)) r]
    · rfl
  · rfl

theorem scan_plain (p : Option Char) (r : List Char) :
    scan (.closer ')') p (x ++ ')' :: r) = .ok x := by
  induction x generalizing p with
  | nil => rfl
  | cons c x ih =>
    have hplain : ∀ d ∈ x, plain d := fun d hd => h d (List.mem_cons_of_mem c hd)
    have hx := ih hplain (some c)
    have hm := codeMove_plain hplain (h c (List.mem_cons_self ..)) p r
    simp only [scan] at hx
    simp only [scan, List.cons_append, scanFrom, move, hm, hx, scanFrom.prepend]

end

end Templating.Code
