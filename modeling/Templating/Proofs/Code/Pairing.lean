import Mathlib.Data.List.Induction
import Templating.Code.Scan

/-! Words of delimiters: those in which each one that opens is closed by its own, and what is still
to close in a word that closes all but some. -/
namespace Templating.Code

/-- Each delimiter that opens is closed by its own, and what stands between them is paired, too. -/
inductive Paired : List Char → Prop
  | nil : Paired []
  | enclosed {o c : Char} {u v : List Char} (hc : closerOf? o = some c) (hu : Paired u)
      (hv : Paired v) :
      Paired (o :: u ++ c :: v)

/-- These closers are still to come behind the word, the first of them first. -/
inductive Pending : List Char → List Char → Prop
  | nil {w : List Char} (hw : Paired w) : Pending [] w
  | opened {o c : Char} {closers w v : List Char} (hw : Pending closers w)
      (hc : closerOf? o = some c) (hv : Paired v) :
      Pending (c :: closers) (w ++ o :: v)

/-- The closers that are still to come behind a delimiter, if they were `closers` before it; none if
it closes what is not open. -/
def afterDelimiter (closers : List Char) (d : Char) : Option (List Char) :=
  match closerOf? d with
  | some c => some (c :: closers)
  | none =>
    match closers with
    | [] => none
    | e :: closers => if e = d then some closers else none

/-- The closers that are still to come behind a word. -/
def closersAfter (closers w : List Char) : Option (List Char) := w.foldlM afterDelimiter closers

theorem closerOf?_closer {o c : Char} (h : closerOf? o = some c) : closerOf? c = none := by
  unfold closerOf? at h
  split at h <;> cases h <;> rfl

section
variable {o c : Char} {closers closers' u v w : List Char}

theorem afterDelimiter_open (h : closerOf? o = some c) (closers : List Char) :
    afterDelimiter closers o = some (c :: closers) := by
  unfold afterDelimiter
  rw [h]

theorem afterDelimiter_close (h : closerOf? c = none) (closers : List Char) :
    afterDelimiter (c :: closers) c = some closers := by
  rw [afterDelimiter, h]
  exact if_pos rfl

theorem closersAfter_cons (closers : List Char) (d : Char) (w : List Char) :
    closersAfter closers (d :: w) = (afterDelimiter closers d).bind fun m => closersAfter m w := by
  rw [closersAfter, List.foldlM_cons]
  rfl

theorem closersAfter_append (closers u v : List Char) :
    closersAfter closers (u ++ v) = (closersAfter closers u).bind fun m => closersAfter m v := by
  rw [closersAfter, List.foldlM_append]
  rfl

theorem Paired.closersAfter (h : Paired u) (closers w : List Char) :
    closersAfter closers (u ++ w) = closersAfter closers w := by
  induction h generalizing closers w with
  | nil => rfl
  | @enclosed o c u v hc hu hv ihu ihv =>
    calc Code.closersAfter closers (o :: u ++ c :: v ++ w)
      _ = Code.closersAfter (c :: closers) (u ++ c :: (v ++ w)) := by
        rw [List.append_assoc, List.cons_append, List.cons_append, closersAfter_cons,
          afterDelimiter_open hc, Option.bind_some]
      _ = Code.closersAfter closers (v ++ w) := by
        rw [ihu, closersAfter_cons, afterDelimiter_close (closerOf?_closer hc), Option.bind_some]
      _ = Code.closersAfter closers w := ihv closers w

theorem Paired.append (hu : Paired u) (hv : Paired v) : Paired (u ++ v) := by
  induction hu with
  | nil => exact hv
  | @enclosed o c u w hc hu hw ihu ihw =>
    rw [List.append_assoc]
    exact .enclosed hc hu ihw

theorem Pending.append (hw : Pending closers w) (hv : Paired v) : Pending closers (w ++ v) := by
  cases hw with
  | nil hw => exact .nil (hw.append hv)
  | opened hw hc hu =>
    rw [List.append_assoc]
    exact .opened hw hc (hu.append hv)

theorem Pending.close (h : Pending (c :: closers) w) : Pending closers (w ++ [c]) := by
  cases h with
  | @opened o _ _ w v hw hc hv =>
    have hpair : Paired (o :: v ++ c :: []) := .enclosed hc hv .nil
    have happend := hw.append hpair
    rwa [List.append_assoc]

theorem closersAfter_of_pending (h : Pending closers w) : closersAfter [] w = some closers := by
  have hpaired : ∀ {v : List Char}, Paired v → ∀ m, closersAfter m v = some m := fun {v} hv m => by
    have hempty := hv.closersAfter m []
    rwa [List.append_nil] at hempty
  induction h with
  | nil hw => exact hpaired hw []
  | opened hw hc hv ih =>
    rw [closersAfter_append, ih, Option.bind_some, closersAfter_cons, afterDelimiter_open hc,
      Option.bind_some, hpaired hv]

theorem pending_of_closersAfter (h : closersAfter [] w = some closers) : Pending closers w := by
  induction w using List.reverseRecOn generalizing closers with
  | nil =>
    obtain rfl := Option.some.inj h
    exact .nil .nil
  | append_singleton w d ih =>
    rw [closersAfter_append] at h
    obtain ⟨before, hbefore, hlast⟩ := Option.bind_eq_some_iff.mp h
    rw [closersAfter_cons] at hlast
    obtain ⟨m, hlast, hm⟩ := Option.bind_eq_some_iff.mp hlast
    obtain rfl := Option.some.inj hm
    have hw := ih hbefore
    unfold afterDelimiter at hlast
    split at hlast
    next c hopen =>
      obtain rfl := Option.some.inj hlast
      exact .opened hw hopen .nil
    next hclose =>
      split at hlast
      · cases hlast
      next e before =>
        split at hlast
        next he =>
          subst he
          obtain rfl := Option.some.inj hlast
          exact hw.close
        · cases hlast

/-- What is still to come behind a word is what the delimiters tell that are open there. -/
theorem closersAfter_iff : closersAfter [] w = some closers ↔ Pending closers w :=
  ⟨pending_of_closersAfter, closersAfter_of_pending⟩

theorem pending_nil_iff : Pending [] w ↔ Paired w :=
  ⟨fun h => by cases h; assumption, .nil⟩

end

end Templating.Code
