import Mathlib.Data.List.DropRight
import Mathlib.Data.List.TakeWhile
import Templating.Proofs.Text.Blank
import Templating.Text.Cursor

/-! Cursors that move over known text, blanks at the ends of a text, and names at its front. -/
namespace Templating.Text

theorem dropEndWhile_append {p : Char → Bool} {b : List Char} (h : b.all p) (a : List Char) :
    dropEndWhile p (a ++ b) = dropEndWhile p a := by
  have hb : ∀ x ∈ b.reverse, p x := by simpa using h
  simp [dropEndWhile, List.dropWhile_append_of_pos hb]

theorem trim_append_blank {b : List Char} (h : allBlank b) (a : List Char) :
    trim (a ++ b) = trim a := by
  have hb : b.dropWhile isBlank = [] := List.dropWhile_eq_nil_iff.mpr (List.all_eq_true.mp h)
  simp only [trim, trimStart, trimEnd, List.dropWhile_append]
  split
  · next ha => rw [hb, List.isEmpty_iff.mp ha]
  · exact dropEndWhile_append h _

theorem trim_blank_cons {x : Char} (h : isBlank x) (a : List Char) : trim (x :: a) = trim a := by
  simp [trim, trimStart, h]

theorem trim_length_le (a : List Char) : (trim a).length ≤ a.length := by
  have hs := (List.dropWhile_sublist isBlank (l := a)).length_le
  have he := (List.dropWhile_sublist isBlank (l := (a.dropWhile isBlank).reverse)).length_le
  simp only [List.length_reverse] at he
  simp only [trim, trimEnd, dropEndWhile, trimStart, List.length_reverse]
  omega

theorem trim_eq_self {a : List Char} (h : ∀ x ∈ a, isBlank x = false) : trim a = a := by
  have hs : trimStart a = a := by
    cases a with
    | nil => rfl
    | cons x a => simp [trimStart, h x (List.mem_cons_self ..)]
  have hr : a.reverse.dropWhile isBlank = a.reverse := by
    cases hb : a.reverse with
    | nil => rfl
    | cons x b =>
      have hx : x ∈ a := by simpa using (hb ▸ List.mem_cons_self .. : x ∈ a.reverse)
      simp [h x hx]
  rw [trim, hs, trimEnd, dropEndWhile, hr, List.reverse_reverse]

theorem not_blank_of_trim_eq {x : Char} {a : List Char} (h : trim (x :: a) = x :: a) :
    ¬ isBlank x := by
  intro hx
  rw [trim_blank_cons hx] at h
  have hl := congrArg List.length h
  have hle := trim_length_le a
  simp only [List.length_cons] at hl
  omega

theorem drop_length_takeWhile {α : Type} (p : α → Bool) (a : List α) :
    a.drop (a.takeWhile p).length = a.dropWhile p := by
  have hleft : (a.takeWhile p ++ a.dropWhile p).drop (a.takeWhile p).length = a.dropWhile p :=
    List.drop_left
  rwa [List.takeWhile_append_dropWhile] at hleft

theorem any_head?_dropWhile (p : Char → Bool) (a : List Char) :
    (a.dropWhile p).head?.any p = false := by
  have hnot := List.head?_dropWhile_not p a
  cases hhead : (a.dropWhile p).head? with
  | none => rfl
  | some x =>
    rw [hhead] at hnot
    simpa using hnot

theorem head?_dropWhile (p : Char → Bool) (a : List Char) :
    ∀ x ∈ (a.dropWhile p).head?, p x = false := by
  intro x hx
  have hany := any_head?_dropWhile p a
  rw [hx] at hany
  exact hany

theorem takeWhile_iff {p : Char → Bool} {a u : List Char} :
    a.takeWhile p = u ↔ ∃ v, a = u ++ v ∧ (∀ x ∈ u, p x = true) ∧ ∀ x ∈ v.head?, p x = false := by
  constructor
  · rintro rfl
    exact ⟨a.dropWhile p, List.takeWhile_append_dropWhile.symm, fun x hx =>
      List.all_eq_true.mp List.all_takeWhile x hx,
      head?_dropWhile p a⟩
  · rintro ⟨v, rfl, hu, hv⟩
    rw [List.takeWhile_append_of_pos hu]
    cases v with
    | nil => simp
    | cons x v => simp [hv x rfl]

theorem trim_trim (a : List Char) : trim (trim a) = trim a := by
  have hend : ∀ b : List Char, trimEnd (trimEnd b) = trimEnd b := by
    intro b
    simp only [trimEnd, dropEndWhile, List.reverse_reverse, List.dropWhile_idempotent]
  have hstart : trimStart (trimEnd (trimStart a)) = trimEnd (trimStart a) := by
    cases hb : trimEnd (trimStart a) with
    | nil => rfl
    | cons x b =>
      obtain ⟨r, hr, -⟩ := exists_trimEnd (trimStart a)
      have hfirst : (trimStart a).head?.any isBlank = false := any_head?_dropWhile isBlank a
      rw [hr, hb] at hfirst
      have hx : isBlank x = false := hfirst
      simp [trimStart, hx]
  rw [trim, trim, hstart]
  exact hend _

theorem takeWhile_append_stop {p : Char → Bool} {x : Char} (h : ¬ p x) (a r : List Char) :
    (a ++ x :: r).takeWhile p = a.takeWhile p := by
  induction a with
  | nil => simp [h]
  | cons y a ih => simp [List.takeWhile_cons, ih]

theorem leadingName_append {x : Char} (h : ¬ continuesName x) (a r : List Char) :
    leadingName (a ++ x :: r) = leadingName a := by
  cases a with
  | nil =>
    have hs : ¬ startsName x := fun hs => h (continuesName_of_startsName hs)
    simp [leadingName, hs]
  | cons y a => simp only [leadingName, List.cons_append, takeWhile_append_stop h]

theorem eq_cons_of_leadingName {x : Char} {w cs : List Char} (h : leadingName cs = x :: w) :
    ∃ r, cs = x :: r ∧ startsName x := by
  cases cs with
  | nil => simp [leadingName] at h
  | cons y r =>
    by_cases hy : startsName y
    · obtain ⟨rfl, -⟩ : y = x ∧ _ := by simpa [leadingName, hy] using h
      exact ⟨r, rfl, hy⟩
    · simp [leadingName, hy] at h

theorem drop_leadingName {a : List Char} (h : leadingName a ≠ []) :
    (a.drop (leadingName a).length).head?.any continuesName = false := by
  cases a with
  | nil => exact absurd rfl h
  | cons x a =>
    rw [leadingName] at h ⊢
    split at h
    next hx =>
      rw [if_pos hx, List.length_cons, List.drop_succ_cons, drop_length_takeWhile]
      exact any_head?_dropWhile continuesName a
    · exact absurd rfl h

/-- A name, as long as it can be before some text. -/
structure WholeName (w rest : List Char) : Prop where
  name : ∃ x u, w = x :: u ∧ startsName x = true ∧ ∀ y ∈ u, continuesName y = true
  stops : ∀ y ∈ rest.head?, continuesName y = false

section
variable {w w' rest rest' cs : List Char}

theorem WholeName.ne_nil (h : WholeName w rest) : w ≠ [] := by
  obtain ⟨x, u, rfl, -⟩ := h.name
  exact List.cons_ne_nil x u

theorem WholeName.continues (h : WholeName w rest) : ∀ y ∈ w, continuesName y = true := by
  obtain ⟨x, u, rfl, hx, hu⟩ := h.name
  exact List.forall_mem_cons.mpr ⟨continuesName_of_startsName hx, hu⟩

theorem WholeName.leadingName (h : WholeName w rest) : leadingName (w ++ rest) = w := by
  obtain ⟨⟨x, u, rfl, hx, hu⟩, hstops⟩ := h
  have hrest : rest.takeWhile continuesName = [] := by
    cases rest with
    | nil => rfl
    | cons y rest => simp [hstops y rfl]
  rw [List.cons_append, Text.leadingName, if_pos hx, List.takeWhile_append_of_pos hu, hrest,
    List.append_nil]

theorem wholeName_leadingName (h : leadingName cs ≠ []) :
    WholeName (leadingName cs) (cs.drop (leadingName cs).length) where
  name := by
    cases cs with
    | nil => exact absurd rfl h
    | cons x cs =>
      rw [leadingName] at h ⊢
      split at h
      next hx =>
        rw [if_pos hx]
        exact ⟨x, _, rfl, hx, fun y hy => List.mem_takeWhile_imp hy⟩
      · exact absurd rfl h
  stops y hy := by
    have hstop := drop_leadingName h
    rw [hy] at hstop
    exact hstop

theorem WholeName.unique (h : WholeName w rest) (h' : WholeName w' rest')
    (heq : w ++ rest = w' ++ rest') : w = w' := by
  rw [← h.leadingName, ← h'.leadingName, heq]

end

theorem ne_of_startsName {x y : Char} (hx : startsName x = true) (hy : startsName y = false) :
    x ≠ y := by
  rintro rfl
  rw [hx] at hy
  cases hy

theorem startsWithWord_append {x : Char} (h : ¬ continuesName x) {word a : List Char}
    (ha : startsWithWord word a) (r : List Char) : startsWithWord word (a ++ x :: r) := by
  obtain ⟨⟨t, rfl⟩, ht⟩ : word <+: a ∧ _ := by simpa [startsWithWord] using ha
  cases t with
  | nil => simp [startsWithWord, h]
  | cons y t => simpa [startsWithWord] using ht

namespace Cursor
variable {c : Cursor} {u v : List Char}

theorem forward_forward (m n : Nat) (c : Cursor) : (c.forward m).forward n = c.forward (m + n) := by
  apply ext
  · simp [before_forward, List.take_add, List.reverse_append]
  · simp

theorem rest_forward_of_append (h : c.rest = u ++ v) : (c.forward u.length).rest = v := by simp [h]

theorem head?_before_forward (h : c.rest = u ++ v) (hu : u ≠ []) :
    (c.forward u.length).before.head? = u.getLast? := by
  simp [before_forward, h, List.head?_append, List.getLast?_eq_some_getLast hu]

theorem rest_skip (p : Char → Bool) (c : Cursor) : (c.skip p).rest = c.rest.dropWhile p :=
  rest_forward_of_append List.takeWhile_append_dropWhile.symm

theorem takeWhile_append_rest_skip (p : Char → Bool) (c : Cursor) :
    c.rest.takeWhile p ++ (c.skip p).rest = c.rest := by
  rw [rest_skip, List.takeWhile_append_dropWhile]

theorem skip_eq_forward {p : Char → Bool} (h : c.rest = u ++ v) (hu : ∀ x ∈ u, p x)
    (hv : ∀ x ∈ v.head?, ¬ p x) : c.skip p = c.forward u.length := by
  have htake : (u ++ v).takeWhile p = u := by
    rw [List.takeWhile_append_of_pos hu]
    cases v with
    | nil => simp
    | cons y v => simp [hv y (by simp)]
  simp [skip, past, h, htake]

end Cursor

end Templating.Text
