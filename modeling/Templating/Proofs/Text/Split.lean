import Templating.Text.Blank

/-! The pieces of a text between its marks. There is one more of them than there are marks, none has
a mark in it, and parts that are joined by a mark come apart again. -/
namespace Templating.Text
variable {p : Char → Bool} {c : Char} {a b cs s : List Char}

theorem splitAt_eq_splitOnP (p : Char → Bool) (cs : List Char) : splitAt p cs = cs.splitOnP p := by
  induction cs with
  | nil => rfl
  | cons c cs ih =>
    rw [splitAt, ih, List.splitOnP_cons_eq_if_modifyHead]
    cases hsplit : cs.splitOnP p with
    | nil => exact absurd hsplit (List.splitOnP_ne_nil p cs)
    | cons r rs => rfl

theorem exists_splitAt (p : Char → Bool) (cs : List Char) : ∃ r rs, splitAt p cs = r :: rs :=
  List.exists_cons_of_ne_nil (splitAt_eq_splitOnP p cs ▸ List.splitOnP_ne_nil p cs)

theorem splitAt_mark (hc : p c = true) (a b : List Char) :
    splitAt p (a ++ c :: b) = splitAt p a ++ splitAt p b := by
  simp only [splitAt_eq_splitOnP]
  exact List.splitOnP_append_cons a b hc

theorem splitAt_clear (ha : ∀ x ∈ a, p x = false) (b : List Char) :
    splitAt p (a ++ b) = (splitAt p b).modifyHead (a ++ ·) := by
  obtain ⟨r, rs, hsplit⟩ := exists_splitAt p b
  rw [hsplit, List.modifyHead_cons]
  induction a with
  | nil => exact hsplit
  | cons x a ih =>
    have hx : p x = false := ha x List.mem_cons_self
    have hrest := ih fun y hy => ha y (List.mem_cons_of_mem x hy)
    simp [splitAt, hx, hrest]

theorem splitAt_self (ha : ∀ x ∈ a, p x = false) : splitAt p a = [a] := by
  rw [splitAt_eq_splitOnP]
  exact List.splitOnP_eq_singleton ha

theorem splitAt_append (hc : p c = true) (ha : ∀ x ∈ a, p x = false) (b : List Char) :
    splitAt p (a ++ c :: b) = a :: splitAt p b := by
  rw [splitAt_mark hc, splitAt_self ha]
  rfl

theorem length_splitAt (cs : List Char) : (splitAt p cs).length = cs.countP p + 1 := by
  induction cs with
  | nil => rfl
  | cons c cs ih =>
    obtain ⟨r, rs, hsplit⟩ := exists_splitAt p cs
    rw [hsplit] at ih
    by_cases hc : p c = true
    · rw [splitAt, if_pos hc, hsplit, List.length_cons, ih, List.countP_cons_of_pos hc]
    · rw [splitAt, if_neg hc, hsplit, List.countP_cons_of_neg hc]
      exact ih

theorem mem_of_splitAt (h : s ∈ splitAt p cs) : ∀ c ∈ s, c ∈ cs ∧ p c = false := by
  induction cs generalizing s with
  | nil =>
    obtain rfl := List.mem_singleton.mp h
    exact fun _ hc => by cases hc
  | cons x cs ih =>
    have hcons : ∀ {s : List Char}, s ∈ splitAt p cs → ∀ c ∈ s, c ∈ x :: cs ∧ p c = false :=
      fun hs c hc =>
      ⟨List.mem_cons_of_mem x (ih hs c hc).1, (ih hs c hc).2⟩
    unfold splitAt at h
    split at h
    · rcases List.mem_cons.mp h with rfl | h
      · exact fun _ hc => by cases hc
      · exact hcons h
    next hx =>
      have hone : ∀ {r : List Char}, (∀ c ∈ r, c ∈ x :: cs ∧ p c = false) → ∀ c ∈ x :: r,
          c ∈ x :: cs ∧ p c = false := by
        intro r hr c hc
        rcases List.mem_cons.mp hc with rfl | hc
        · exact ⟨List.mem_cons_self, by simpa using hx⟩
        · exact hr c hc
      split at h
      · obtain rfl := List.mem_singleton.mp h
        exact hone fun _ hc => by cases hc
      next r rs hsplit =>
        rw [hsplit] at hcons
        rcases List.mem_cons.mp h with rfl | h
        · exact hone (hcons List.mem_cons_self)
        · exact hcons (List.mem_cons_of_mem r h)

theorem getElem?_splitAt {u v : List Char} (hu : ∀ x, u.getLast? = some x → p x = true)
    (hs : ∀ x ∈ s, p x = false) (hv : ∀ x, v.head? = some x → p x = true) :
    (splitAt p (u ++ (s ++ v)))[u.countP p]? = some s := by
  have hfront : (splitAt p (s ++ v))[0]? = some s := by
    cases v with
    | nil => rw [List.append_nil, splitAt_self hs]; rfl
    | cons x v => rw [splitAt_append (hv x rfl) hs]; rfl
  rcases List.eq_nil_or_concat u with rfl | ⟨w, x, rfl⟩
  · exact hfront
  · have hx : p x = true := hu x (by simp)
    have hindex : (w ++ [x]).countP p = (splitAt p w).length := by simp [length_splitAt, hx]
    rw [List.concat_eq_append, List.append_assoc, List.singleton_append, splitAt_mark hx, hindex,
      List.getElem?_append_right (Nat.le_refl _), Nat.sub_self]
    exact hfront

theorem toList_join_cons (sep x y : String) (parts : List String) :
    (join sep (x :: y :: parts)).toList =
      x.toList ++ (sep.toList ++ (join sep (y :: parts)).toList) := by
  simp [join, String.intercalate_cons_cons]

theorem splitAt_join (hc : p c = true) {parts : List String} (hne : parts ≠ [])
    (h : ∀ s ∈ parts, ∀ x ∈ s.toList, p x = false) :
    (splitAt p (join (String.singleton c) parts).toList).map String.ofList = parts := by
  induction parts with
  | nil => exact absurd rfl hne
  | cons s parts ih =>
    have hs := h s List.mem_cons_self
    cases parts with
    | nil =>
      rw [join, String.intercalate_singleton, splitAt_self hs]
      simp
    | cons r parts =>
      have hrest := ih (List.cons_ne_nil r parts) fun q hq => h q (List.mem_cons_of_mem s hq)
      have hmark : (String.singleton c).toList = [c] := by simp
      rw [toList_join_cons, hmark, List.singleton_append, splitAt_append hc hs, List.map_cons,
        hrest, String.ofList_toList]

end Templating.Text
