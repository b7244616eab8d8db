import Templating.Diagnostic
import Templating.Proofs.Text.Ahead

/-! Which diagnostics can be listed: all but those that begin or end inside a character, and those
too far down or to the right for the numbers that lines, columns and widths are told in. -/
namespace Templating
open Text (Cuts byteSize byteSize_append byteSize_pos)

namespace Text

/-- The offset is neither between two characters of the text nor outside of it. -/
def Inside (text : List Char) (i : Nat) : Prop :=
  ∃ a x b, text = a ++ x :: b ∧ byteSize a < i ∧ i < byteSize a + x.utf8Size

theorem Cuts.not_inside {text : List Char} {i : Nat} (h : Cuts text i) : ¬ Inside text i := by
  rintro ⟨a, x, b, hsplit, hlow, hhigh⟩
  obtain ⟨u, v, htext, rfl⟩ := h
  -- the cut is before the character or behind it
  rcases List.append_eq_append_iff.mp (htext.symm.trans hsplit) with ⟨w, rfl, -⟩ | ⟨w, rfl, hw⟩
  · simp only [byteSize_append] at hlow
    omega
  · cases w with
    | nil => simp at hlow
    | cons y w =>
      obtain ⟨rfl, -⟩ := List.cons.inj hw
      simp only [byteSize_append, byteSize] at hhigh
      omega

theorem not_inside_of_le {text : List Char} {i : Nat} (h : byteSize text ≤ i) :
    ¬ Inside text i := by
  rintro ⟨a, x, b, rfl, -, hhigh⟩
  simp only [byteSize_append, byteSize] at h
  omega

theorem inside_succ {a b : List Char} {x : Char} (h : 1 < x.utf8Size) :
    Inside (a ++ x :: b) (byteSize a + 1) :=
  ⟨a, x, b, rfl, by omega, by omega⟩

end Text

theorem Source.size_eq (s : Source) : s.size = byteSize s.text.toList := by
  have hlist : ∀ cs : List Char, (String.ofList cs).utf8ByteSize = byteSize cs := by
    intro cs
    induction cs with
    | nil => simp [byteSize]
    | cons c cs ih =>
      have hsplit : String.ofList (c :: cs) = String.singleton c ++ String.ofList cs := by
        rw [String.singleton_eq_ofList, ← String.ofList_append]
        rfl
      rw [hsplit, String.utf8ByteSize_append, String.utf8ByteSize_singleton, ih, byteSize]
  rw [Source.size, ← hlist, String.ofList_toList]

/-! Positions -/

theorem Place.advance?_eq_none_iff (p : Place) (i : Nat) (text : List Char) :
    p.advance? i text = none ↔ Text.Inside text i := by
  induction text generalizing p i with
  | nil =>
    have hnone : p.advance? i [] ≠ none := by cases i <;> simp [advance?]
    exact iff_of_false hnone (Text.not_inside_of_le (Nat.zero_le i))
  | cons c cs ih =>
    have hpos := c.utf8Size_pos
    cases i with
    | zero => exact iff_of_false (by simp [advance?]) (Cuts.not_inside ⟨[], c :: cs, rfl, rfl⟩)
    | succ i =>
      rw [advance?]
      split
      next hlt => exact iff_of_true rfl ⟨[], c, cs, rfl, Nat.succ_pos i,
        by simpa [byteSize] using hlt⟩
      next hge =>
        rw [ih]
        constructor
        · rintro ⟨a, x, b, rfl, hlow, hhigh⟩
          exact ⟨c :: a, x, b, rfl, by simp only [byteSize]; omega, by simp only [byteSize]; omega⟩
        · rintro ⟨a, x, b, hsplit, hlow, hhigh⟩
          cases a with
          | nil =>
            obtain ⟨rfl, -⟩ := List.cons.inj hsplit
            simp only [byteSize] at hhigh
            omega
          | cons y a =>
            obtain ⟨rfl, rfl⟩ := List.cons.inj hsplit
            simp only [byteSize] at hlow hhigh
            exact ⟨a, x, b, rfl, by omega, by omega⟩

def Location.Torn (l : Location) : Prop :=
  Text.Inside l.source.text.toList l.span.start ∨ Text.Inside l.source.text.toList l.span.stop

theorem Location.torn_iff (l : Location) :
    l.Torn ↔ l.source.place? l.span.start = none ∨ l.source.place? l.span.stop = none := by
  rw [Torn, Source.place?, Source.place?, Place.advance?_eq_none_iff, Place.advance?_eq_none_iff]

/-- The line or the column of a place is too large a number. -/
def Place.Lost (p : Place) : Prop := p.lineNumber = UInt32.size ∨ UInt32.size ≤ p.column

theorem Place.position?_eq_none_iff (p : Place) : p.position? = none ↔ p.Lost := by
  have hle : p.lineNumber ≤ UInt32.size := Nat.succ_le_of_lt (Nat.mod_lt _ (by decide))
  unfold position? Lost
  split
  next h => exact iff_of_false (by simp) (by omega)
  next h => exact iff_of_true rfl (by omega)

theorem Place.of_position? {p : Place} {a : Position} (h : p.position? = some a) :
    a.line = p.lineNumber ∧ a.column = p.column := by
  unfold position? at h
  split at h
  · obtain rfl := Option.some.inj h
    exact ⟨rfl, rfl⟩
  · cases h

/-- Both ends of a location are places, but one has no position, or the first is too far to the
right to be pointed at, or the last too far from it on the same line. -/
def Location.Wide (l : Location) : Prop :=
  ∃ p q, l.source.place? l.span.start = some p ∧ l.source.place? l.span.stop = some q ∧
    (p.Lost ∨ q.Lost ∨ UInt16.size ≤ p.column - 1 ∨ p.lineNumber = q.lineNumber ∧
      UInt16.size ≤ q.column - p.column)

/-- A location is within its text and begins and ends between characters, and in this order. -/
structure Location.Sound (l : Location) : Prop where
  start_le_stop : l.span.start ≤ l.span.stop
  stop_le_size : l.span.stop ≤ l.source.size
  start : Cuts l.source.text.toList l.span.start
  stop : Cuts l.source.text.toList l.span.stop

theorem Location.Sound.not_torn {l : Location} (h : l.Sound) : ¬ l.Torn :=
  fun htorn => htorn.elim h.start.not_inside h.stop.not_inside

theorem Location.sound_whole (s : Source) : (whole s).Sound := by
  refine ⟨Nat.zero_le _, Nat.le_refl _, ⟨[], _, rfl, rfl⟩,
    ⟨s.text.toList, [], (List.append_nil _).symm, ?_⟩⟩
  exact s.size_eq

/-! Listings -/

namespace Diagnostic

def Torn (d : Diagnostic) : Prop := ∃ l, d.location? = some l ∧ l.Torn

def Wide (d : Diagnostic) : Prop := ∃ l, d.location? = some l ∧ l.Wide

theorem field?_eq_none_iff (width : Nat) (c : Char) :
    field? width c = none ↔ UInt16.size ≤ width := by
  unfold field?
  split
  next h => exact iff_of_false (by simp) (Nat.not_le.mpr h)
  next h => exact iff_of_true rfl (Nat.not_lt.mp h)

theorem bind_eq_none_iff_or {α β γ : Type} (x : Option α) (y : Option β) (f : α → β → γ) :
    (do return f (← x) (← y)) = none ↔ x = none ∨ y = none := by
  cases x <;> cases y <;> simp

theorem label?_eq_none_iff (l : Location) : l.label? = none ↔ l.start? = none ∨ l.stop? = none := by
  unfold Location.label?
  cases l.start? with
  | none => simp
  | some a =>
    cases l.stop? with
    | none => simp
    | some b =>
      refine iff_of_false ?_ (by simp)
      dsimp only [bind, Option.bind, pure]
      split <;> simp

theorem excerpt?_eq_none_iff {l : Location} {a b : Position} (ha : l.start? = some a)
    (hb : l.stop? = some b) :
    excerpt? l = none ↔
      UInt16.size ≤ a.column - 1 ∨ a.line = b.line ∧ UInt16.size ≤ b.column - a.column := by
  have hsize : 1 < UInt16.size := by decide
  have hlast : UInt16.size ≤
      (if b.line == a.line then max b.column (a.column + 1) else a.column + 1) - a.column ↔
      a.line = b.line ∧ UInt16.size ≤ b.column - a.column := by
    by_cases hline : a.line = b.line
    · simp only [hline, beq_self_eq_true, if_true, true_and]
      omega
    · have hother : (b.line == a.line) = false := beq_eq_false_iff_ne.mpr (Ne.symm hline)
      simp only [hline, hother, Bool.false_eq_true, if_false, false_and, iff_false]
      omega
  unfold excerpt?
  rw [ha, hb]
  dsimp only [Option.bind_eq_bind, Option.bind_some]
  rw [← hlast, ← field?_eq_none_iff _ ' ', ← field?_eq_none_iff _ '^']
  exact bind_eq_none_iff_or ..

theorem listing_eq_none_iff (l : Location) : l.label? = none ∨ excerpt? l = none ↔
    l.Torn ∨ l.Wide := by
  have hstart : l.start? = (l.source.place? l.span.start).bind (·.position?) := rfl
  have hstop : l.stop? = (l.source.place? l.span.stop).bind (·.position?) := rfl
  rw [label?_eq_none_iff, l.torn_iff]
  unfold Location.Wide
  cases hp : l.source.place? l.span.start with
  | none => simp [hstart, hp]
  | some p =>
    cases hq : l.source.place? l.span.stop with
    | none => simp [hstop, hq]
    | some q =>
      rw [hp, Option.bind_some] at hstart
      rw [hq, Option.bind_some] at hstop
      simp only [reduceCtorEq, or_self, false_or, Option.some.injEq, exists_and_left,
        exists_eq_left']
      rw [← p.position?_eq_none_iff, ← q.position?_eq_none_iff, ← hstart, ← hstop, ← or_assoc]
      refine or_congr_right' fun hpositions => ?_
      obtain ⟨a, ha⟩ := Option.ne_none_iff_exists'.mp fun h => hpositions (.inl h)
      obtain ⟨b, hb⟩ := Option.ne_none_iff_exists'.mp fun h => hpositions (.inr h)
      obtain ⟨haline, hacolumn⟩ := p.of_position? (hstart.symm.trans ha)
      obtain ⟨hbline, hbcolumn⟩ := q.of_position? (hstop.symm.trans hb)
      rw [excerpt?_eq_none_iff ha hb, haline, hacolumn, hbline, hbcolumn]

theorem render?_eq_none_iff (d : Diagnostic) : d.render? = none ↔ d.Torn ∨ d.Wide := by
  unfold render? Torn Wide
  cases d.location? with
  | none => simp
  | some l =>
    simp only [Option.some.injEq, exists_eq_left']
    exact (bind_eq_none_iff_or l.label? (excerpt? l) _).trans (listing_eq_none_iff l)

theorem renderAll?_eq_none_iff (ds : List Diagnostic) :
    renderAll? ds = none ↔ ∃ d ∈ ds, d.severity ≠ .hidden ∧ (d.Torn ∨ d.Wide) := by
  have hmap : ∀ ds : List Diagnostic,
      (ds.mapM fun d => return (← d.render?) ++ "\n") = none ↔ ∃ d ∈ ds, d.Torn ∨ d.Wide := by
    intro ds
    induction ds with
    | nil => simp
    | cons d ds ih =>
      rw [List.mapM_cons, List.exists_mem_cons_iff, ← ih, ← render?_eq_none_iff]
      cases d.render? with
      | none => simp
      | some r => cases ds.mapM fun d => return (← d.render?) ++ "\n" <;> simp
  have hall : renderAll? ds = none ↔
      ((ds.filter (·.severity != .hidden)).mapM fun d => return (← d.render?) ++ "\n") = none := by
    unfold renderAll?
    cases (ds.filter (·.severity != .hidden)).mapM fun d => return (← d.render?) ++ "\n" <;> simp
  rw [hall, hmap]
  simp [and_assoc]

end Diagnostic

end Templating
