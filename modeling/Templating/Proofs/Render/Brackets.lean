import Templating.Proofs.Render.Provenance

/-! Attributes are begun and ended in turn. What is out of place is an error that leaves the writer
as it was, and nothing that is done takes back what was written. -/
namespace Templating.Render
variable {τ ε α : Type} {nested : Nested τ ε}

/-- What is wrong with an operation while this attribute is open, or while none is. -/
def WriterOp.misuse? : WriterOp τ ε → Option OpenAttribute → Option AttributeMisuse
  | .beginAttribute .., some _ => some .nested
  | .part .., none => some .partOutside
  | .endAttribute, none => some .notStarted
  | _, _ => none

def WriterOp.value? : WriterOp τ ε → Option (Value τ)
  | .write v | .part _ v _ => some v
  | _ => none

def failure? : (writing τ ε).Done → Option RenderError
  | ⟨.write _, .error e⟩ | ⟨.beginAttribute .., .error e⟩ | ⟨.part .., .error e⟩ | ⟨.endAttribute,
    .error e⟩ => some e
  | _ => none

/-- Whether an attribute is open behind an operation that has begun or ended one. -/
def bracket? : (writing τ ε).Done → Option Bool
  | ⟨.beginAttribute .., .ok ()⟩ => some true
  | ⟨.endAttribute, .ok ()⟩ => some false
  | _ => none

/-! Which attribute is open -/

theorem Contributes.isSome {token : Token} {a? b? : Option OpenAttribute} {d : (writing τ ε).Done}
    {xs : List Segment}
    (h : Contributes nested token a? d xs b?) : b?.isSome = (bracket? d).getD a?.isSome := by
  cases h <;> rfl

theorem Contributions.isSome {token : Token} {a? b? : Option OpenAttribute}
    {ds : List (writing τ ε).Done} {xs : List Segment}
    (h : Contributions nested token a? ds xs b?) :
    b?.isSome = (ds.filterMap bracket?).getLast?.getD a?.isSome := by
  induction h with
  | nil a? => rfl
  | @cons a? b? c? d ds xs ys h _ ih =>
    rw [ih, h.isSome]
    cases hd : bracket? d with
    | none => rw [List.filterMap_cons_none hd]; rfl
    | some b => rw [List.filterMap_cons_some hd, List.getLast?_cons]; rfl

namespace Writer
variable {x y : Writer} {op : WriterOp τ ε} {r : op.Reply} {w w' : World τ ε}

theorem output_prefix (h : (x.perform nested op).Gives w (r, y) w') :
    x.output.toList <+: y.output.toList := by
  obtain ⟨xs, -, hout⟩ := contributes_perform h
  exact ⟨_, hout.symm⟩

/-! What is out of place -/

theorem gives_misuse {m : AttributeMisuse} (h : op.misuse? x.attribute? = some m) (w : World τ ε) :
    ∃ r, failure? ⟨op, r⟩ = some (.attributeState m) ∧ (x.perform nested op).Gives w (r, x) w := by
  cases hx : x.attribute? with
  | none =>
    rw [hx] at h
    cases op with
    | part lead v fixed =>
      obtain rfl := Option.some.inj h
      have hpart : x.part lead v fixed = .done (.error (.attributeState .partOutside)) x := by
        rw [part, hx]
      exact ⟨.error _, rfl, by rw [perform, hpart]; exact gives_pure.mpr ⟨rfl, rfl⟩⟩
    | endAttribute =>
      obtain rfl := Option.some.inj h
      have hend : x.endAttribute = (.error (.attributeState .notStarted), x) := by
        rw [endAttribute, hx]
      exact ⟨.error _, rfl, gives_pure.mpr ⟨hend, rfl⟩⟩
    | _ => cases h
  | some a =>
    rw [hx] at h
    cases op with
    | beginAttribute name opening closing count =>
      obtain rfl := Option.some.inj h
      have hbegin : x.beginAttribute name opening closing count =
          (.error (.attributeState .nested), x) := by
        rw [beginAttribute, hx]
      exact ⟨.error _, rfl, gives_pure.mpr ⟨hbegin, rfl⟩⟩
    | _ => cases h

/-! What an operation waits for -/

theorem value_of_write {v : Value τ} {t : τ} (h : x.write v = .nested t y) :
    v = .template t ∧ y.token = x.token := by
  cases v with
  | template u =>
    obtain ⟨rfl, rfl⟩ := Written.nested.inj h
    exact ⟨rfl, rfl⟩
  | null | boolean | text | encoded | display => cases h

theorem value_of_followPart {lead : String} {fixed : Bool} {v : Value τ} {t : τ}
    (h : x.followPart lead fixed v = .nested t y) :
    v = .template t ∧ y.token = x.token := by
  cases v with
  | null => cases h
  | text s => cases fixed <;> cases h
  | boolean b => exact value_of_write (x := x.literal lead) h
  | encoded e => exact value_of_write (x := x.literal lead) h
  | template t => exact value_of_write (x := x.literal lead) h
  | display d => exact value_of_write (x := x.literal lead) h

theorem value_of_part {lead : String} {fixed : Bool} {v : Value τ} {t : τ}
    (h : x.part lead v fixed = .nested t y) :
    v = .template t ∧ y.token = x.token := by
  have hopened : ∀ {a : OpenAttribute} {u : Value τ},
    (x.literal a.opening).followPart lead fixed u = .nested t y →
      u = .template t ∧ y.token = x.token :=
        fun {a} _ h => value_of_followPart (x := x.literal a.opening) h
  unfold part at h
  split at h
  · cases h
  split at h
  · cases h
  split at h
  · exact value_of_followPart h
  split at h
  · exact hopened h
  split at h
  · cases h
  · cases h
  · exact absurd (hopened h).1 (by simp)
  · exact hopened h

theorem exists_gives_complete {o : Written τ}
    (h : ∀ t x, o = .nested t x → ∃ s w', (nested t x.token).Gives w s w') :
    ∃ r y w', (complete nested o).Gives w (r, y) w' := by
  cases o with
  | done r x => exact ⟨r, x, w, gives_pure.mpr ⟨rfl, rfl⟩⟩
  | nested t x =>
    obtain ⟨s, w', hs⟩ := h t x rfl
    cases s with
    | ok s => exact ⟨.ok (), x.literal s, w', hs.bind (gives_pure.mpr ⟨rfl, rfl⟩)⟩
    | error e => exact ⟨.error e, x, w', hs.bind (gives_pure.mpr ⟨rfl, rfl⟩)⟩

theorem exists_gives_perform
    (h : ∀ t, op.value? = some (.template t) → ∃ s w', (nested t x.token).Gives w s w') :
    ∃ r y w', (x.perform nested op).Gives w (r, y) w' := by
  cases op with
  | write v =>
    refine exists_gives_complete fun t y ht => ?_
    obtain ⟨rfl, htoken⟩ := value_of_write ht
    rw [htoken]
    exact h t rfl
  | part lead v fixed =>
    refine exists_gives_complete fun t y ht => ?_
    obtain ⟨rfl, htoken⟩ := value_of_part ht
    rw [htoken]
    exact h t rfl
  | literal s => exact ⟨(), _, w, gives_pure.mpr ⟨rfl, rfl⟩⟩
  | beginAttribute name opening closing count => exact ⟨_, _, w, gives_pure.mpr ⟨rfl, rfl⟩⟩
  | endAttribute => exact ⟨_, _, w, gives_pure.mpr ⟨rfl, rfl⟩⟩
  | output => exact ⟨_, _, w, gives_pure.mpr ⟨rfl, rfl⟩⟩
  | kind => exact ⟨_, _, w, gives_pure.mpr ⟨rfl, rfl⟩⟩
  | cancel =>
    exact ⟨(), x, _, gives_bind.mpr ⟨(), _, gives_modify.mpr rfl, gives_pure.mpr ⟨rfl, rfl⟩⟩⟩
  | check => exact ⟨_, x, _, Task.Gives.bind rfl (gives_pure.mpr ⟨rfl, rfl⟩)⟩
  | suspend =>
    exact ⟨(), x, _, gives_bind.mpr ⟨(), _, gives_suspend.mpr rfl, gives_pure.mpr ⟨rfl, rfl⟩⟩⟩
  | report e =>
    exact ⟨(), x, _, gives_bind.mpr ⟨(), _, gives_modify.mpr rfl, gives_pure.mpr ⟨rfl, rfl⟩⟩⟩

end Writer

/-- Whatever a program has done with a new writer, an attribute is open if and only if the last
begin or end without an error was a begin. The next operation writes behind the output, and comes to
an end if the templates that it writes do. A begin while an attribute is open, a part or an end
while none is, are errors and leave the writer as it is; other begins and ends are none. -/
theorem writer_appends {kind : ContentKind} {token : Token} {p p' : Program (writing τ ε) α}
    {x : Writer} {w w' : World τ ε} {ds : List (writing τ ε).Done}
    (h : Performs (Writer.perform nested) p { kind, token } w ds p' x w') :
    (x.attribute?.isSome ↔ (ds.filterMap bracket?).getLast? = some true) ∧
      (∀ op r y v, (x.perform nested op).Gives w' (r, y) v → x.output.toList <+: y.output.toList) ∧
      (∀ op : WriterOp τ ε,
        (∀ t, op.value? = some (.template t) → ∃ s v, (nested t token).Gives w' s v) →
        ∃ r y v, (x.perform nested op).Gives w' (r, y) v) ∧
      (∀ (op : WriterOp τ ε) m, op.misuse? x.attribute? = some m →
        ∃ r, failure? ⟨op, r⟩ = some (.attributeState m) ∧
          (x.perform nested op).Gives w' (r, x) w') ∧
      (x.attribute? = none → ∀ name opening closing count,
        ∃ y, (x.perform nested (.beginAttribute name opening closing count)).Gives w'
          (.ok (), y) w') ∧
      (x.attribute?.isSome → ∃ y, (x.perform nested .endAttribute).Gives w' (.ok (), y) w') := by
  obtain ⟨hakin, xs, hxs, -⟩ := contributions_of_performs h
  refine ⟨?opened, fun op r y v => Writer.output_prefix, fun op hop => ?ends, fun op m hm =>
    Writer.gives_misuse hm w', ?begins, ?closes⟩
  case opened =>
    rw [hxs.isSome]
    cases (ds.filterMap bracket?).getLast? <;> simp
  case ends =>
    refine Writer.exists_gives_perform fun t ht => ?_
    rw [hakin.token]
    exact hop t ht
  case begins =>
    intro hnone name opening closing count
    obtain ⟨y, hy, -⟩ := Writer.gives_beginAttribute hnone name opening closing count
    exact ⟨y, gives_pure.mpr ⟨hy, rfl⟩⟩
  case closes =>
    intro hsome
    obtain ⟨y, hy, -⟩ := Writer.gives_endAttribute hsome
    exact ⟨y, gives_pure.mpr ⟨hy, rfl⟩⟩

/-- An end before any begin, a begin inside an attribute, and a part that fails
behind its first piece. -/
def misused : List (WriterOp Unit Unit) :=
  [.endAttribute, .literal "<p", .beginAttribute "a" " a=[" "]" 2, .beginAttribute "b" " b=[" "]" 1,
    .part "" (.display ⟨["<"], true⟩) false]

def beginAnother : WriterOp Unit Unit := .beginAttribute "c" " c=[" "]" 2

theorem writer_appends_misused : ∃ ds x,
    Performs (Writer.perform bold) (inSequence misused) { kind := .html, token := ⟨0⟩ } {} ds
      (.done ()) x {} ∧
      x.output = "<p a=[&lt;" ∧ x.attribute?.isSome ∧ (ds.filterMap bracket?).getLast? = some true ∧
      ∃ r, failure? ⟨beginAnother, r⟩ = some (.attributeState .nested) ∧
        (x.perform bold beginAnother).Gives {} (r, x) {} := by
  have h : ∃ ds, Performs (Writer.perform bold) (inSequence misused) { kind := .html, token := ⟨0⟩ }
    {} ds (.done ())
      { kind := .html, token := ⟨0⟩, output := "<p a=[&lt;",
        attribute? := some { name := "a", opening := " a=[", closing := "]", count := 2 } } {} :=
    ⟨_, .perform (by rfl)
      (.perform (by rfl) (.perform (by rfl) (.perform (by rfl) (.perform (by rfl) (.none _ _ _)))))⟩
  obtain ⟨ds, hds⟩ := h
  obtain ⟨hopened, -, -, hmisuse, -⟩ := writer_appends hds
  exact ⟨ds, _, hds, rfl, rfl, hopened.mp rfl, hmisuse beginAnother .nested rfl⟩

end Templating.Render
