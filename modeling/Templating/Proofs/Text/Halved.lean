import Templating.Proofs.Text.Ahead

/-! At signs of which two in a row stand for one. -/
namespace Templating.Text

/-- The text with each two at signs in a row made one, from the first character on. -/
def halved : List Char → List Char
  | '@' :: '@' :: cs => '@' :: halved cs
  | x :: cs => x :: halved cs
  | [] => []

variable {x q : Char} {u r w b : List Char}

@[simp] theorem halved_nil : halved [] = [] := rfl

@[simp] theorem halved_pair (cs : List Char) : halved ('@' :: '@' :: cs) = '@' :: halved cs := rfl

theorem halved_cons (h : x = '@' → r.head? ≠ some '@') : halved (x :: r) = x :: halved r := by
  rw [halved]
  intro cs hx hr
  exact h hx (by rw [hr]; rfl)

theorem halved_other (h : x ≠ '@') : halved (x :: r) = x :: halved r :=
  halved_cons fun hx => absurd hx h

theorem not_head_of_single (h : ∀ cs, x = '@' → r = '@' :: cs → False) :
    x = '@' → r.head? ≠ some '@' := by
  intro hx hr
  obtain ⟨cs, hcs⟩ := List.head?_eq_some_iff.mp hr
  exact h cs hx hcs

theorem halved_append (h : u.getLast? = some '@' → r.head? ≠ some '@') :
    halved (u ++ r) = halved u ++ halved r := by
  induction u using halved.induct with
  | case1 cs ih =>
    have hrest := ih fun hlast => h (by rw [List.getLast?_cons, List.getLast?_cons, hlast]; rfl)
    rw [List.cons_append, List.cons_append, halved_pair, halved_pair, hrest, List.cons_append]
  | case2 x cs hsingle ih =>
    have hrest := ih fun hlast => h (by rw [List.getLast?_cons, hlast]; rfl)
    have hmeet : x = '@' → (cs ++ r).head? ≠ some '@' := by
      intro hx
      cases cs with
      | nil => exact h (by rw [hx]; rfl)
      | cons y cs =>
        have hhead : (y :: cs).head? ≠ some '@' := not_head_of_single hsingle hx
        exact hhead
    rw [List.cons_append, halved_cons hmeet, halved_cons (not_head_of_single hsingle), hrest,
      List.cons_append]
  | case3 => rfl

theorem byteSize_halved_cons (x : Char) (w : List Char) :
    byteSize (halved w) ≤ byteSize (halved (x :: w)) ∧ byteSize (halved (x :: w)) ≤
      x.utf8Size + byteSize (halved w) := by
  induction w generalizing x with
  | nil =>
    rw [halved_cons (by simp)]
    exact ⟨Nat.zero_le _, Nat.le_refl _⟩
  | cons y w ih =>
    by_cases hpair : x = '@' ∧ y = '@'
    · obtain ⟨rfl, rfl⟩ := hpair
      obtain ⟨hshorter, hlonger⟩ := ih '@'
      rw [halved_pair]
      simp only [byteSize]
      omega
    · have hmeet : x = '@' → (y :: w).head? ≠ some '@' :=
        fun hx hy => hpair ⟨hx, Option.some.inj hy⟩
      rw [halved_cons hmeet]
      simp only [byteSize]
      omega

theorem byteSize_halved_append (u r : List Char) :
    byteSize (halved (u ++ r)) ≤ byteSize (halved u) + byteSize (halved r) := by
  induction u using halved.induct with
  | case1 cs ih =>
    rw [List.cons_append, List.cons_append, halved_pair, halved_pair]
    simp only [byteSize]
    omega
  | case2 x cs hsingle ih =>
    have hone := (byteSize_halved_cons x (cs ++ r)).2
    rw [List.cons_append, halved_cons (not_head_of_single hsingle)]
    simp only [byteSize]
    omega
  | case3 => exact Nat.le_add_left _ _

theorem byteSize_halved_le (w : List Char) : byteSize (halved w) ≤ byteSize w := by
  induction w with
  | nil => exact Nat.le_refl _
  | cons x w ih =>
    have hone := (byteSize_halved_cons x w).2
    simp only [byteSize]
    omega

theorem halved_eq_self (h : byteSize (halved w) = byteSize w) : halved w = w := by
  induction w using halved.induct with
  | case1 cs ih =>
    have hle := byteSize_halved_le cs
    have hsign := Char.utf8Size_pos '@'
    rw [halved_pair] at h
    simp only [byteSize] at h
    omega
  | case2 x cs hsingle ih =>
    rw [halved_cons (not_head_of_single hsingle)] at h ⊢
    simp only [byteSize] at h
    rw [ih (by omega)]
  | case3 => rfl

theorem not_prefix_of_halved (hq : q ≠ '@') (k : Nat) :
    ¬ halved u ++ q :: r <+: '@' :: (List.replicate k '@' ++ (u ++ q :: b)) := by
  have hshift : ∀ (k : Nat) (cs : List Char), List.replicate k '@' ++ '@' :: cs =
      '@' :: (List.replicate k '@' ++ cs) := by
    intro k cs
    rw [List.append_cons, ← List.replicate_succ', List.replicate_succ, List.cons_append]
  intro h
  induction u using halved.induct generalizing k with
  | case1 cs ih =>
    -- one sign was taken away, so that one more is in front of what is left
    rw [halved_pair, List.cons_append, List.cons_prefix_cons, List.cons_append, List.cons_append,
      hshift, hshift,
      ← List.cons_append, ← List.replicate_succ] at h
    exact ih (k + 1) h.2
  | case2 x cs hsingle ih =>
    rw [halved_cons (not_head_of_single hsingle), List.cons_append, List.cons_prefix_cons] at h
    obtain ⟨rfl, h⟩ := h
    rw [List.cons_append, hshift] at h
    exact ih k h
  | case3 => exact hq (List.cons_prefix_cons.mp h).1

theorem halved_eq_of_prefix (hq : q ≠ '@') (h : halved u ++ q :: r <+: u ++ q :: b) :
    halved u = u := by
  induction u using halved.induct with
  | case1 cs ih =>
    rw [halved_pair, List.cons_append, List.cons_append, List.cons_prefix_cons] at h
    exact absurd h.2 (not_prefix_of_halved hq 0)
  | case2 x cs hsingle ih =>
    have hmeet := not_head_of_single hsingle
    rw [halved_cons hmeet, List.cons_append, List.cons_append, List.cons_prefix_cons] at h
    rw [halved_cons hmeet, ih h.2]
  | case3 => rfl

end Templating.Text
