import Templating.Proofs.Markup.Spelling
import Templating.Proofs.Text.Halved

/-! What is kept of a tag as markup: its characters, but for one of each two at signs in a quoted
value. The attributes that hold an expression take their characters out of it. -/
namespace Templating.Markup.Tag
open Text (Cursor byteSize halved isBlank)
open Text.Cursor

/-- A stretch of a tag and what is kept of it. -/
inductive Kept : List Char → List Char → Prop
  | nil : Kept [] []
  | char {w v : List Char} (x : Char) (h : Kept w v) : Kept (x :: w) (x :: v)
  | value {w v u : List Char} {quote : Char} (hquote : quote = '"' ∨ quote = '\'') (hu : quote ∉ u)
      (h : Kept w v) :
      Kept (quote :: (u ++ quote :: w)) (quote :: (halved u ++ quote :: v))

section
variable {w v w' v' : List Char}

theorem kept_refl (w : List Char) : Kept w w := by
  induction w with
  | nil => exact .nil
  | cons x w ih => exact .char x ih

theorem Kept.append (h : Kept w v) (h' : Kept w' v') : Kept (w ++ w') (v ++ v') := by
  induction h with
  | nil => exact h'
  | char x _ ih => exact .char x ih
  | value hquote hu _ ih => simpa using Kept.value hquote hu ih

theorem Kept.byteSize_le (h : Kept w v) : byteSize v ≤ byteSize w := by
  induction h with
  | nil => exact Nat.le_refl _
  | char x _ ih =>
    simp only [byteSize]
    omega
  | @value w v u quote _ _ _ ih =>
    have hu := Text.byteSize_halved_le u
    simp only [byteSize, Text.byteSize_append]
    omega

theorem byteSize_halved_value (quote : Char) (u w : List Char) :
    byteSize (halved (quote :: (u ++ quote :: w))) ≤
    quote.utf8Size + (byteSize (halved u) + (quote.utf8Size + byteSize (halved w))) := by
  have hopen := (Text.byteSize_halved_cons quote (u ++ quote :: w)).2
  have hvalue := Text.byteSize_halved_append u (quote :: w)
  have hclose := (Text.byteSize_halved_cons quote w).2
  omega

theorem Kept.byteSize_halved_le (h : Kept w v) : byteSize (halved w) ≤ byteSize v := by
  induction h with
  | nil => exact Nat.le_refl _
  | @char w v x _ ih =>
    have hone := (Text.byteSize_halved_cons x w).2
    simp only [byteSize]
    omega
  | @value w v u quote _ _ _ ih =>
    have hvalue := byteSize_halved_value quote u w
    simp only [byteSize, Text.byteSize_append]
    omega

theorem Kept.eq_of_prefix (h : Kept w v) (hv : v <+: w) : w = v := by
  induction h with
  | nil => rfl
  | char x _ ih => rw [ih (List.cons_prefix_cons.mp hv).2]
  | @value w v u quote hquote _ _ ih =>
    have hat : quote ≠ '@' := by
      rcases hquote with rfl | rfl <;> decide
    have hvalue := (List.cons_prefix_cons.mp hv).2
    have hself := Text.halved_eq_of_prefix hat hvalue
    rw [hself, List.prefix_append_right_inj, List.cons_prefix_cons] at hvalue
    rw [ih hvalue.2, hself]

theorem Kept.eq_nil (h : Kept w []) : w = [] := h.eq_of_prefix List.nil_prefix

end

/-- What is made of a tag, or of the end of one, between two places in the text. -/
inductive Pieced : Cursor → List Piece → Cursor → Prop
  | close {a : Cursor} {w v r : List Char} (hw : a.rest = w ++ r) (hkept : Kept w v)
      (hend : w.getLast? = some '>') :
      Pieced a [.text v a.offset] (a.past w)
  | node {a b e : Cursor} {w v r : List Char} {x : Attribute} {ps : List Piece}
      (hw : a.rest = w ++ r) (hkept : Kept w v)
      (hb : Ahead (a.past w) b) (h : Pieced b ps e) :
      Pieced a (text v a.offset ++ .node (.attribute x) ⟨(a.past w).offset, b.offset⟩ false :: ps) e

/-! Quoted values -/

section
variable {quote : Char} {d d' : Draft} {c e : Cursor}

theorem parts_expression (d : Draft) (code : String) (start stop : Nat) :
    (d.expression code start stop).parts ≠ [] := by
  unfold Draft.expression
  split <;> simp

theorem Valued.exists_literal (h : Valued quote d c d' e) (hparts : d'.parts = []) :
    d.parts = [] ∧ ∃ u, c.rest = u ++ e.rest ∧ quote ∉ u ∧ d'.pending = d.pending ++ halved u := by
  induction h with
  | close => exact ⟨hparts, [], rfl, by simp, by simp⟩
  | @char _ _ c _ x r hrest hquote hat _ ih =>
    obtain ⟨hnone, u, hu, hfree, hpending⟩ := ih hparts
    rw [rest_forward_one hrest] at hu
    refine ⟨hnone, x :: u, by rw [hrest, hu]; rfl, by simp [Ne.symm hquote, hfree], ?_⟩
    rw [hpending, Text.halved_other hat, List.append_assoc]
    rfl
  | @escape _ _ c _ r hrest hquote _ ih =>
    obtain ⟨hnone, u, hu, hfree, hpending⟩ := ih hparts
    rw [rest_forward, hrest] at hu
    refine ⟨hnone, '@' :: '@' :: u,
      by rw [hrest]; exact congrArg ('@' :: '@' :: ·) hu, by simp [Ne.symm hquote, hfree], ?_⟩
    rw [hpending, Text.halved_pair, List.append_assoc]
    rfl
  | @sign _ _ c _ r hrest hquote hlone _ ih =>
    obtain ⟨hnone, u, hu, hfree, hpending⟩ := ih hparts
    rw [rest_forward_one hrest] at hu
    refine ⟨hnone, '@' :: u, by rw [hrest, hu]; rfl, by simp [Ne.symm hquote, hfree], ?_⟩
    have hnext : u.head? ≠ some '@' := by
      intro hhead
      obtain ⟨s, rfl⟩ := List.head?_eq_some_iff.mp hhead
      rw [hu, List.cons_append, transition] at hlone
      cases hlone
    rw [hpending, Text.halved_cons fun _ => hnext, List.append_assoc]
    rfl
  | expression _ _ _ _ ih => exact absurd (ih hparts).1 (parts_expression _ _ _ _)

end

/-! Attributes -/

section
variable {a c e : Cursor} {w markup : List Char} {ps : List Piece}

theorem Attributed.pieced {offset : Nat} (h : Attributed markup offset c ps e)
    (hoffset : offset = a.offset) (ha : Ahead a c)
    (hrest : a.rest = w ++ c.rest) (hkept : Kept w markup) : Pieced a ps e := by
  induction h generalizing a w with
  | @close markup u _ c e he hu hend =>
    subst hoffset
    have hwhole : a.rest = (w ++ u) ++ e.rest := by rw [hrest, hu, List.append_assoc]
    have hne : (markup ++ u).isEmpty = false := by
      simp [List.ne_nil_of_mem (List.mem_of_getLast? hend)]
    rw [text, hne, (ha.trans he).eq_past hwhole]
    exact .close hwhole (hkept.append (kept_refl u)) (by rw [List.getLast?_append, hend]; rfl)
  | plain hd hu _ ih =>
    exact ih hoffset (ha.trans hd) (by rw [hrest, hu, List.append_assoc])
      (hkept.append (kept_refl _))
  | @literal _ lead _ quote c v b e d ps hv hlead hquote hvalue hparts _ ih =>
    obtain ⟨-, u, hu, hfree, hpending⟩ := hvalue.exists_literal hparts
    refine ih (w := w ++ (lead ++ quote :: u ++ [quote])) hoffset (ha.trans (hvalue.behind hv)) ?_
      (hkept.append ?_)
    · rw [hrest, hvalue.rest_eq hlead hu]
      simp
    · rw [show d.pending = halved u from hpending, List.append_assoc, List.append_assoc]
      exact (kept_refl lead).append (.value hquote hfree .nil)
  | parts hv _ _ hvalue _ _ ih =>
    subst hoffset
    obtain rfl := ha.eq_past hrest
    exact .node hrest hkept (hvalue.behind hv) (ih (w := []) rfl (ahead_refl _) rfl .nil)

theorem pieced_read (h : read? c = some (ps, e)) : Pieced c ps e := by
  obtain ⟨name, d, hd, hname, hread⟩ := attributed_of_read h
  exact hread.pieced rfl hd hname (kept_refl _)

end

end Templating.Markup.Tag
