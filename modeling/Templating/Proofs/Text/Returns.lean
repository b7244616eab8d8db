import Templating.Proofs.Text.Blank
import Templating.Proofs.Text.Cursor

/-! Carriage returns in a text whose lines end with a line feed, be there a return before it or not:
no line holds one. -/
namespace Templating.Text
variable {a b cs w : List Char}

/-- Every carriage return is before a line feed. -/
def paired : List Char → Bool
  | [] => true
  | c :: cs => (c != '\r' || cs.head? == some '\n') && paired cs

theorem paired_cons {c : Char} : paired (c :: cs) = true ↔ (c = '\r' → cs.head? = some '\n') ∧
    paired cs = true := by
  by_cases hc : c = '\r' <;> simp [paired, hc]

theorem paired_right (h : paired (a ++ b) = true) : paired b = true := by
  induction a with
  | nil => exact h
  | cons c a ih => exact ih (paired_cons.mp h).2

theorem paired_left (h : paired (a ++ b) = true) (hb : b.head? ≠ some '\n') : paired a = true := by
  induction a with
  | nil => rfl
  | cons c a ih =>
    obtain ⟨hc, hrest⟩ := paired_cons.mp h
    refine paired_cons.mpr ⟨fun hreturn => ?_, ih hrest⟩
    cases a with
    | nil => exact absurd (hc hreturn) hb
    | cons x a => exact hc hreturn

theorem eq_nil_of_return {u v : List Char} (h : paired (u ++ '\r' :: (v ++ b)) = true)
    (hv : '\n' ∉ v) : v = [] := by
  have hnext := (paired_cons.mp (paired_right h)).1 rfl
  cases v with
  | nil => rfl
  | cons x v =>
    obtain rfl : x = '\n' := Option.some.inj hnext
    exact absurd List.mem_cons_self hv

theorem not_blank_of_trimEnd {u : List Char} {c : Char} (h : trimEnd cs = u ++ [c]) :
    isBlank c = false := by
  have hlast : (cs.reverse.dropWhile isBlank).head? = some c := by
    have hreverse := congrArg List.reverse h
    rw [trimEnd, dropEndWhile, List.reverse_reverse, List.reverse_append] at hreverse
    rw [hreverse]
    rfl
  exact head?_dropWhile isBlank cs.reverse c hlast

theorem return_not_mem_trimEnd (h : paired (w ++ b) = true) (hw : '\n' ∉ w) : '\r' ∉ trimEnd w := by
  intro hmem
  obtain ⟨u, v, htrim⟩ := List.append_of_mem hmem
  obtain ⟨e, hsplit, -⟩ := exists_trimEnd w
  rw [htrim, List.append_assoc] at hsplit
  have hv : '\n' ∉ v ++ e := fun hfeed => hw (by rw [hsplit]; simp [List.mem_append.mp hfeed])
  rw [hsplit, List.append_assoc] at h
  have hnil := eq_nil_of_return (b := b) (v := v ++ e) (by simpa using h) hv
  obtain ⟨rfl, -⟩ := List.append_eq_nil_iff.mp hnil
  exact absurd (not_blank_of_trimEnd htrim) (by decide)

theorem return_not_mem_lines (h : paired cs = true) : ∀ l ∈ lines cs, '\r' ∉ l := by
  have hfirst : ∀ {c : Char} {cs : List Char}, paired (c :: cs) = true →
    (∀ x, c = '\r' → cs = '\n' :: x → False) →
      '\r' ≠ c := by
    rintro c cs h hfeed rfl
    have hnext := (paired_cons.mp h).1 rfl
    cases cs with
    | nil => cases hnext
    | cons x cs => exact hfeed cs rfl (by rw [Option.some.inj hnext])
  induction cs using lines.induct with
  | case1 => exact fun l hl => by cases hl
  | case2 cs ih =>
    rw [lines]
    exact List.forall_mem_cons.mpr ⟨List.not_mem_nil, ih (paired_cons.mp h).2⟩
  | case3 cs ih =>
    rw [lines]
    exact List.forall_mem_cons.mpr ⟨List.not_mem_nil, ih (paired_cons.mp (paired_cons.mp h).2).2⟩
  | case4 c cs hfeed hreturn hnil =>
    have hlines : lines (c :: cs) = [[c]] := by simp [lines, hnil]
    rw [hlines]
    simpa using hfirst h hreturn
  | case5 c cs hfeed hreturn l ls hcons ih =>
    have hlines : lines (c :: cs) = (c :: l) :: ls := by simp [lines, hcons]
    have hrest := ih (paired_cons.mp h).2
    rw [hcons] at hrest
    obtain ⟨hl, hls⟩ := List.forall_mem_cons.mp hrest
    rw [hlines]
    exact List.forall_mem_cons.mpr ⟨by simpa using ⟨hfirst h hreturn, hl⟩, hls⟩

end Templating.Text
