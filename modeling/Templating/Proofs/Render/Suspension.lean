import Templating.Proofs.Render.Moment
import Templating.Proofs.Render.Steady

/-! Suspension. A render that is driven on after every stop comes to what the render of the same
templates without their suspensions comes to. One that may not wait stops where the next operation
is the first suspension. -/
namespace Templating.Render
variable {ω α β τ ε : Type}

/-! Where a task stops first -/

/-- The task stops for the first time in that world. -/
def Task.Halts (t : Task ω α) (w v : ω) : Prop := ∃ resume, t w = .pending v resume

section
variable {t : Task ω α} {f : α → Task ω β} {w w' v : ω}

theorem not_halts_of_ready {a : α} (h : t w = .ready a w') : ¬ t.Halts w v := by
  rintro ⟨resume, hpending⟩
  rw [h] at hpending
  cases hpending

theorem gives_of_ready {a : α} (h : t w = .ready a w') : t.Gives w a w' := by
  rw [Task.Gives, h]
  rfl

theorem ready_of_gives {a : α} (h : t.Gives w a w') (hstop : ∀ v, ¬ t.Halts w v) :
    t w = .ready a w' := by
  unfold Task.Gives at h
  cases ht : t w with
  | ready b u =>
    rw [ht] at h
    obtain ⟨rfl, rfl⟩ := Prod.mk.inj (Option.some.inj h)
    rfl
  | pending u resume => exact absurd ⟨resume, ht⟩ (hstop u)
  | endless =>
    rw [ht] at h
    cases h

theorem halts_bind : (t >>= f).Halts w v ↔ t.Halts w v ∨ ∃ a w', t w = .ready a w' ∧
    (f a).Halts w' v := by
  have hbind : (t >>= f) w = (t w).bind f := rfl
  unfold Task.Halts
  rw [hbind]
  cases ht : t w with
  | ready a w' =>
    simp only [Poll.bind, reduceCtorEq, exists_false, false_or, Poll.ready.injEq]
    constructor
    · exact fun h => ⟨a, w', ⟨rfl, rfl⟩, h⟩
    · rintro ⟨_, _, ⟨rfl, rfl⟩, h⟩
      exact h
  | pending u resume => simp [Poll.bind]
  | endless => simp [Poll.bind]

theorem halts_bind_pure {g : α → β} : (t >>= fun a => pure (g a)).Halts w v ↔ t.Halts w v := by
  rw [halts_bind]
  refine or_iff_left ?_
  rintro ⟨a, w', -, h⟩
  exact not_halts_of_ready rfl h

theorem halts_suspend : Task.suspend.Halts w v ↔ v = w := by
  simp [Task.Halts, Task.suspend, eq_comm]

end

section
variable {x : Attempt τ ε α} {f : α → Attempt τ ε β} {token : Token} {w v : World τ ε}

theorem halts_attempt_bind : (x >>= f).run.Halts w v ↔
    x.run.Halts w v ∨ ∃ a w', x.run w = .ready (.ok a) w' ∧ (f a).run.Halts w' v := by
  have hbind : (x >>= f).run = (x.run >>= ExceptT.bindCont f) := rfl
  rw [hbind, halts_bind]
  refine or_congr Iff.rfl ⟨?_, ?_⟩
  · rintro ⟨r, w', hready, hrest⟩
    cases r with
    | ok a => exact ⟨a, w', hready, hrest⟩
    | error e => exact absurd hrest (not_halts_of_ready rfl)
  · rintro ⟨a, w', hready, hrest⟩
    exact ⟨.ok a, w', hready, hrest⟩

theorem halts_check_bind {f : Unit → Attempt τ ε β} :
    (World.check token >>= f : Attempt τ ε β).run.Halts w v ↔
    w.arrive.signals.isCancelled token = false ∧ (f ()).run.Halts w.arrive v := by
  cases hcancelled : w.arrive.signals.isCancelled token with
  | true => exact iff_of_false (not_halts_of_ready (check_bind_cancelled hcancelled)) (by simp)
  | false =>
    rw [Task.Halts, attempt_bind_of_ok (check_free hcancelled)]
    exact (and_iff_right rfl).symm

theorem halts_start {e : Event τ ε} {σ : Type} {t : Run τ ε (Except RenderError Unit × σ)}
    {g : σ → β} :
    (show Attempt τ ε β from do
      World.check token
      (World.record e : Run τ ε Unit)
      let (r, s) ← t
      ExceptT.mk (pure (r.map fun _ => g s))).run.Halts w v ↔
    w.arrive.signals.isCancelled token = false ∧ t.Halts (w.arrive.recorded e) v := by
  cases hcancelled : w.arrive.signals.isCancelled token with
  | true => exact iff_of_false (not_halts_of_ready (check_bind_cancelled hcancelled)) (by simp)
  | false =>
    rw [Task.Halts, start_free hcancelled, ← Task.Halts, halts_bind_pure]
    simp

end

/-! Where a render stops first -/

section
variable {lib : Library τ ε} {nested : Nested τ ε} {w v : World τ ε}

theorem halts_execute {t : τ} {cx : Context τ ε} : (execute lib nested t cx).run.Halts w v ↔
    w.arrive.signals.isCancelled cx.writer.token = false ∧
      ((lib t).body.run (Context.perform nested) cx).Halts (w.arrive.recorded (.started t)) v :=
  halts_start

theorem halts_compose {left : Nat} {x : Executed τ ε} {t : τ} (ht : x.layout? = some t) :
    (compose lib nested (left + 1) x).run.Halts w v ↔ w.arrive.signals.isCancelled x.token = false ∧
      (execute lib nested t
        { Context.new (lib t).kind x.token with input? := some { x with layout? := none } } >>=
        compose lib nested left).run.Halts w.arrive v := by
  rw [compose_around ht]
  exact halts_check_bind

theorem halts_runSection {x : Executed τ ε} {s : Section τ ε} {body : SectionBody τ ε} :
    (x.runSection nested s body).run.Halts w v ↔ w.arrive.signals.isCancelled x.token = false ∧
      (body.run (Writer.perform nested) { kind := x.kind, token := x.token }).Halts
        (w.arrive.recorded (.sectionStarted s.name)) v :=
  halts_start

theorem halts_complete {o : Written τ} :
    (Writer.complete nested o).Halts w v ↔ ∃ t z, o.nested? = some (t, z) ∧
      (nested t z.token).run.Halts w v := by
  cases o with
  | done r y =>
    have hready : Writer.complete nested (.done r y) w = .ready (r, y) w := rfl
    simp [not_halts_of_ready hready, Written.nested?]
  | nested t y =>
    have hreceived : (Writer.complete nested (.nested t y)).Halts w v ↔
        (nested t y.token).run.Halts w v := by
      refine halts_bind.trans (or_iff_left ?_)
      rintro ⟨r, w', -, hrest⟩
      cases r <;> exact not_halts_of_ready rfl hrest
    rw [hreceived]
    constructor
    · exact fun h => ⟨t, y, rfl, h⟩
    · rintro ⟨_, _, hnested, h⟩
      obtain ⟨rfl, rfl⟩ := Prod.mk.inj (Option.some.inj hnested)
      exact h

theorem halts_writer {op : WriterOp τ ε} {y : Writer} : (y.perform nested op).Halts w v ↔
    (op = .suspend ∧ v = w) ∨ ∃ t z, op.nested? y = some (t, z) ∧
      (nested t z.token).run.Halts w v := by
  have hready : ∀ {r : op.Reply × Writer} {w' : World τ ε}, y.perform nested op w = .ready r w' →
    op.nested? y = none →
      op ≠ .suspend → ((y.perform nested op).Halts w v ↔
        (op = .suspend ∧ v = w) ∨ ∃ t z, op.nested? y = some (t, z) ∧
          (nested t z.token).run.Halts w v) := by
    intro r w' hready hnone hop
    simp [not_halts_of_ready hready, hnone, hop]
  cases op with
  | write u => exact halts_complete.trans (or_iff_right (by simp)).symm
  | part lead u literal => exact halts_complete.trans (or_iff_right (by simp)).symm
  | suspend =>
    have hsuspend : (y.perform nested .suspend).Halts w v ↔ v = w :=
      halts_bind_pure.trans halts_suspend
    simp [hsuspend, WriterOp.nested?]
  | _ => exact hready rfl rfl (by simp)

theorem halts_context_writer {op : WriterOp τ ε} {cx : Context τ ε} :
    (cx.perform nested (.writer op)).Halts w v ↔ (cx.writer.perform nested op).Halts w v :=
  halts_bind_pure

theorem halts_renderSection {x : Executed τ ε} {name : String} :
    (x.renderSection nested name).Halts w v ↔
    ∃ s body, x.sections.find? (·.isCalled name) = some s ∧ s.body? = some body ∧
      (x.runSection nested s body).run.Halts w v := by
  unfold Executed.renderSection
  cases x.sections.find? (·.isCalled name) with
  | none => exact iff_of_false (not_halts_of_ready rfl) (by simp)
  | some s =>
    dsimp only
    split
    next hnone => exact iff_of_false (not_halts_of_ready rfl) (by simp [hnone])
    next body hbody =>
      rw [halts_bind_pure]
      simp [hbody]

theorem halts_context_section {name : String} {required : Bool} {cx : Context τ ε} :
    (cx.perform nested (.renderSection name required)).Halts w v ↔
      w.arrive.signals.isCancelled cx.writer.token = false ∧ ∃ x s body, cx.input? = some x ∧
        x.sections.find? (·.isCalled name) = some s ∧ s.body? = some body ∧
        (x.runSection nested s body).run.Halts w.arrive v := by
  show (cx.renderSection nested name required).Halts w v ↔ _
  cases hcancelled : w.arrive.signals.isCancelled cx.writer.token with
  | true =>
    exact iff_of_false (not_halts_of_ready (bind_of_ready (check_cancelled hcancelled))) (by simp)
  | false =>
    unfold Context.renderSection
    rw [Task.Halts, bind_of_ready (check_free hcancelled)]
    cases cx.input? with
    | none => exact iff_of_false (not_halts_of_ready (w := w.arrive) rfl) (by simp)
    | some x =>
      refine halts_bind_pure.trans (halts_renderSection.trans ?_)
      simp

theorem not_halts_emit {chunk : String} :
    ¬ (World.emit chunk : Attempt τ ε Unit).run.Halts w v := by
  rintro ⟨resume, hpending⟩
  have hemit : (World.emit chunk : Attempt τ ε Unit) w = .pending v resume := hpending
  unfold World.emit at hemit
  split at hemit <;> cases hemit

theorem not_halts_context {op : BodyOp τ ε} (hwriter : ∀ o, op ≠ .writer o)
    (hsection : ∀ name required, op ≠ .renderSection name required) {cx : Context τ ε} :
    ¬ (cx.perform nested op).Halts w v := by
  cases op with
  | writer o => exact absurd rfl (hwriter o)
  | renderSection name required => exact absurd rfl (hsection name required)
  | flush =>
    show ¬ cx.flush.Halts w v
    unfold Context.flush
    split
    · exact not_halts_of_ready rfl
    split
    · exact not_halts_of_ready rfl
    · rw [halts_bind_pure]
      exact not_halts_emit
  | _ => exact not_halts_of_ready rfl

end

/-! Steps in which nothing stops -/

/-- The next operation is a suspension. -/
inductive Stage.Suspends : Stage τ ε → Prop
  | body {depth next cx} : Suspends (.body depth (.perform (.writer .suspend) next) cx)
  | writing {depth next y} : Suspends (.writing depth (.perform .suspend next) y)

def Unbroken (lib : Library τ ε) : Moment τ ε → Moment τ ε → Prop
  | (.template depth _ t cx, w), (.layouts .., _) =>
    ∀ v, ¬ (execute lib (renderNested lib depth) t cx).run.Halts w v
  | (.body depth (.perform op _) cx, w), (.body .., _) =>
    ∀ v, ¬ (cx.perform (renderNested lib depth) op).Halts w v
  | (.writing depth (.perform op _) y, w), (.writing .., _) =>
    ∀ v, ¬ (y.perform (renderNested lib depth) op).Halts w v
  | _, _ => True

/-- One step of a render in which nothing stops. -/
def Prompt (lib : Library τ ε) (m m' : Moment τ ε) : Prop :=
  ∃ e, Step lib e m m' ∧ Unbroken lib m m'

theorem Prompt.step {lib : Library τ ε} {m m' : Moment τ ε} (h : Prompt lib m m') :
    ∃ e, Step lib e m m' := by
  obtain ⟨e, hstep, -⟩ := h
  exact ⟨e, hstep⟩

def Stops (lib : Library τ ε) : Moment τ ε → World τ ε → Prop
  | (.template depth left t cx, w), v =>
    (execute lib (renderNested lib depth) t cx >>=
      compose lib (renderNested lib depth) left).run.Halts w v
  | (.body depth p cx, w), v => (p.run (Context.perform (renderNested lib depth)) cx).Halts w v
  | (.layouts depth left x, w), v => (compose lib (renderNested lib depth) left x).run.Halts w v
  | (.asked depth x s body, w), v => (x.runSection (renderNested lib depth) s body).run.Halts w v
  | (.writing depth p y, w), v => (p.run (Writer.perform (renderNested lib depth)) y).Halts w v

section
variable {lib : Library τ ε} {m m' : Moment τ ε} {w v : World τ ε}

theorem halts_run {S : Signature} {σ : Type} {handle : (op : S.Op) → σ → Run τ ε (S.Reply op × σ)}
    {op : S.Op}
    {next : S.Reply op → Program S α} {s : σ} : ((Program.perform op next).run handle s).Halts w v ↔
      (handle op s).Halts w v ∨ ∃ r s' w', handle op s w = .ready (r, s') w' ∧
        ((next r).run handle s').Halts w' v := by
  refine halts_bind.trans (or_congr Iff.rfl ?_)
  exact ⟨fun ⟨o, w', hready, h⟩ => ⟨o.1, o.2, w', hready, h⟩, fun ⟨r, s', w', hready, h⟩ =>
    ⟨(r, s'), w', hready, h⟩⟩

theorem Stops.of_prompt (h : Prompt lib m m') (hstops : Stops lib m' v) : Stops lib m v := by
  obtain ⟨e, hstep, hprompt⟩ := h
  cases hstep with
  | start hcheck =>
    obtain ⟨-, rfl⟩ := gives_check.mp hcheck
    exact halts_attempt_bind.mpr (.inl (halts_execute.mpr ⟨free_of_gives_check hcheck, hstops⟩))
  | perform hop => exact halts_run.mpr (.inr ⟨_, _, _, ready_of_gives hop hprompt, hstops⟩)
  | nest hop =>
    exact halts_run.mpr
      (.inl (halts_context_writer.mpr (halts_writer.mpr (.inr ⟨_, _, hop, hstops⟩))))
  | ask hcheck hx hs hbody =>
    obtain ⟨-, rfl⟩ := gives_check.mp hcheck
    exact halts_run.mpr
      (.inl (halts_context_section.mpr ⟨free_of_gives_check hcheck, _, _, _, hx, hs, hbody,
        hstops⟩))
  | leave hexecute =>
    exact halts_attempt_bind.mpr (.inr ⟨_, _, ready_of_gives hexecute hprompt, hstops⟩)
  | hop ht hcheck =>
    obtain ⟨-, rfl⟩ := gives_check.mp hcheck
    exact (halts_compose ht).mpr ⟨free_of_gives_check hcheck, hstops⟩
  | startSection hcheck =>
    obtain ⟨-, rfl⟩ := gives_check.mp hcheck
    exact halts_runSection.mpr ⟨free_of_gives_check hcheck, hstops⟩
  | write hop => exact halts_run.mpr (.inr ⟨_, _, _, ready_of_gives hop hprompt, hstops⟩)
  | nestWriting hop => exact halts_run.mpr (.inl (halts_writer.mpr (.inr ⟨_, _, hop, hstops⟩)))

/-- Steps in which nothing stops lead to where the next operation is a suspension, in that world. -/
def Finds (lib : Library τ ε) (m : Moment τ ε) (v : World τ ε) : Prop :=
  ∃ σ : Stage τ ε, Relation.ReflTransGen (Prompt lib) m (σ, v) ∧ σ.Suspends

theorem Finds.of_prompt (h : Prompt lib m m') (hfinds : Finds lib m' v) : Finds lib m v := by
  obtain ⟨σ, hpath, hσ⟩ := hfinds
  exact ⟨σ, .head h hpath, hσ⟩

theorem Stage.Suspends.stops {σ : Stage τ ε} (hσ : σ.Suspends) : Stops lib (σ, v) v := by
  cases hσ with
  | body =>
    exact halts_run.mpr (.inl (halts_context_writer.mpr (halts_writer.mpr (.inl ⟨rfl, rfl⟩))))
  | writing => exact halts_run.mpr (.inl (halts_writer.mpr (.inl ⟨rfl, rfl⟩)))

theorem Finds.stops (h : Finds lib m v) : Stops lib m v := by
  obtain ⟨σ, hpath, hσ⟩ := h
  induction hpath using Relation.ReflTransGen.head_induction_on with
  | refl => exact hσ.stops
  | head h _ ih => exact ih.of_prompt h

/-! The other way around: a render that stops does so at a suspension -/

/-- A template that is rendered inside another, to one depth less, stops at a suspension. -/
def NestedFinds (lib : Library τ ε) (depth : Nat) : Prop :=
  ∀ t token w v, (renderNested lib depth t token).run.Halts w v →
    ∃ d, depth = d + 1 ∧ Finds lib (.template d maxLayouts t (.new (lib t).kind token), w) v

section
variable {depth : Nat} (hn : NestedFinds lib depth)
include hn

theorem finds_writing {p : SectionBody τ ε} {y : Writer} (h : Stops lib (.writing depth p y, w) v) :
    Finds lib (.writing depth p y, w) v := by
  induction p generalizing y w with
  | done r => exact absurd h (not_halts_of_ready rfl)
  | perform op next ih =>
    rcases halts_run.mp h with hop | ⟨r, y', w', hready, hrest⟩
    · rcases halts_writer.mp hop with ⟨rfl, rfl⟩ | ⟨t, z, hnested, hhalts⟩
      · exact ⟨_, .refl, .writing⟩
      · obtain ⟨d, rfl, hfinds⟩ := hn t z.token w v hhalts
        exact hfinds.of_prompt ⟨_, .nestWriting hnested, trivial⟩
    · exact (ih r hrest).of_prompt ⟨_, .write (gives_of_ready hready), fun _ =>
        not_halts_of_ready hready⟩

theorem finds_asked {x : Executed τ ε} {s : Section τ ε} {body : SectionBody τ ε}
    (h : Stops lib (.asked depth x s body, w) v) : Finds lib (.asked depth x s body, w) v := by
  obtain ⟨hfree, hbody⟩ := halts_runSection.mp h
  exact (finds_writing hn hbody).of_prompt ⟨_, .startSection (gives_check_free hfree), trivial⟩

theorem finds_body {p : Body τ ε} {cx : Context τ ε} (h : Stops lib (.body depth p cx, w) v) :
    Finds lib (.body depth p cx, w) v := by
  induction p generalizing cx w with
  | done r => exact absurd h (not_halts_of_ready rfl)
  | perform op next ih =>
    rcases halts_run.mp h with hop | ⟨r, cx', w', hready, hrest⟩
    · cases op with
      | writer op =>
        rcases halts_writer.mp (halts_context_writer.mp hop) with
          ⟨rfl, rfl⟩ | ⟨t, z, hnested, hhalts⟩
        · exact ⟨_, .refl, .body⟩
        · obtain ⟨d, rfl, hfinds⟩ := hn t z.token w v hhalts
          exact hfinds.of_prompt ⟨_, .nest hnested, trivial⟩
      | renderSection name required =>
        obtain ⟨hfree, x, s, body, hx, hs, hbody, hhalts⟩ := halts_context_section.mp hop
        exact (finds_asked hn hhalts).of_prompt ⟨_, .ask (gives_check_free hfree) hx hs hbody,
          trivial⟩
      | setLayout _ | defineSection _ _ | renderBody | isSectionDefined _ | flush =>
        exact absurd hop (not_halts_context (by simp) (by simp))
    · exact (ih r hrest).of_prompt ⟨_, .perform (gives_of_ready hready), fun _ =>
        not_halts_of_ready hready⟩

theorem finds_template_of {left : Nat}
    (hlayouts : ∀ x w, Stops lib (.layouts depth left x, w) v →
      Finds lib (.layouts depth left x, w) v) {t : τ}
    {cx : Context τ ε} (h : Stops lib (.template depth left t cx, w) v) :
    Finds lib (.template depth left t cx, w) v := by
  rcases halts_attempt_bind.mp h with hexecute | ⟨x, w', hready, hrest⟩
  · obtain ⟨hfree, hbody⟩ := halts_execute.mp hexecute
    exact (finds_body hn hbody).of_prompt ⟨_, .start (gives_check_free hfree), trivial⟩
  · exact (hlayouts x w' hrest).of_prompt ⟨_, .leave (gives_of_ready hready), fun _ =>
      not_halts_of_ready hready⟩

theorem finds_layouts {left : Nat} {x : Executed τ ε} (h : Stops lib (.layouts depth left x, w) v) :
    Finds lib (.layouts depth left x, w) v := by
  induction left generalizing x w with
  | zero =>
    cases hx : x.layout? with
    | none =>
      rw [Stops, compose_settled hx] at h
      exact absurd h (not_halts_of_ready rfl)
    | some t =>
      rw [Stops, compose_exceeded hx] at h
      exact absurd h (not_halts_of_ready rfl)
  | succ left ih =>
    cases hx : x.layout? with
    | none =>
      rw [Stops, compose_settled hx] at h
      exact absurd h (not_halts_of_ready rfl)
    | some t =>
      obtain ⟨hfree, hrest⟩ := (halts_compose hx).mp h
      exact (finds_template_of hn (fun _ _ => ih) hrest).of_prompt
        ⟨_, .hop hx (gives_check_free hfree), trivial⟩

theorem finds_template {left : Nat} {t : τ} {cx : Context τ ε}
    (h : Stops lib (.template depth left t cx, w) v) :
    Finds lib (.template depth left t cx, w) v :=
  finds_template_of hn (fun _ _ => finds_layouts hn) h

end

theorem nestedFinds (lib : Library τ ε) (depth : Nat) : NestedFinds lib depth := by
  induction depth with
  | zero =>
    rintro t token w v ⟨resume, hpending⟩
    cases hpending
  | succ depth ih => exact fun t token w v h => ⟨depth, rfl, finds_template ih h⟩

theorem stops_template_iff {depth left : Nat} {t : τ} {cx : Context τ ε} :
    Stops lib (.template depth left t cx, w) v ↔ Finds lib (.template depth left t cx, w) v :=
  ⟨finds_template (nestedFinds lib depth), Finds.stops⟩

end

/-! The moments of the two renders -/

/-- The same moment of the render of the templates without their suspensions. The
output is the same. -/
def Stage.steady : Stage τ ε → Stage τ ε
  | template depth left t cx => template depth left t cx.steady
  | body depth p cx => body depth (Body.steady p) cx.steady
  | layouts depth left x => layouts depth left x.steady
  | asked depth x s p => asked depth x.steady s.steady (SectionBody.steady p)
  | writing depth p y => writing depth (SectionBody.steady p) y

theorem SectionBody.steady_perform {op : WriterOp τ ε} (hop : op ≠ .suspend)
    (next : op.Reply → Program (writing τ ε) α) :
    steady (.perform op next) = .perform op fun r => steady (next r) := by
  cases op with
  | suspend => exact absurd rfl hop
  | _ => rfl

theorem Body.steady_perform {op : BodyOp τ ε} (hsuspend : op ≠ .writer .suspend)
    (hdefine : ∀ name body, op ≠ .defineSection name body)
    (next : op.Reply → Program (composing τ ε) α) :
    steady (.perform op next) = .perform op fun r => steady (next r) := by
  cases op with
  | writer op =>
    cases op with
    | suspend => exact absurd rfl hsuspend
    | _ => rfl
  | defineSection name body => exact absurd rfl (hdefine name body)
  | _ => rfl

theorem ne_suspend_of_nested? {op : WriterOp τ ε} {y z : Writer} {t : τ}
    (h : op.nested? y = some (t, z)) : op ≠ .suspend := by
  rintro rfl
  cases h

section
variable {lib : Library τ ε} {e : Option (Event τ ε)} {σ σ' : Stage τ ε} {w w' : World τ ε}

theorem Step.steady (h : Step lib e (σ, w) (σ', w')) :
    Step lib.steady e (σ.steady, w) (σ'.steady, w') ∨
      e = none ∧ σ.Suspends ∧ σ'.steady = σ.steady ∧ w' = w := by
  have hn := straightens_renderNested lib
  cases h with
  | start hcheck => exact .inl (.start hcheck)
  | @perform depth op next cx r cx' w w' hop =>
    by_cases hsuspend : op = .writer .suspend
    · subst hsuspend
      obtain ⟨hcx, rfl⟩ := Prod.mk.inj (Option.some.inj hop)
      obtain ⟨rfl, rfl⟩ := Prod.mk.inj hcx
      exact .inr ⟨rfl, .body, rfl, rfl⟩
    left
    simp only [Stage.steady]
    by_cases hdefine : ∃ name body, op = .defineSection name body
    · obtain ⟨name, body, rfl⟩ := hdefine
      obtain ⟨hcx, rfl⟩ := gives_pure.mp hop
      have hsteady : cx.steady.defineSection name (SectionBody.steady body) = (r, cx'.steady) := by
        rw [cx.defineSection_steady, hcx]
        rfl
      exact .perform (gives_pure.mpr ⟨hsteady, rfl⟩)
    · have hdefine' : ∀ name body, op ≠ .defineSection name body :=
        fun name body h => hdefine ⟨name, body, h⟩
      rw [Body.steady_perform hsuspend hdefine']
      exact .perform ((straightens_context (hn depth) hsuspend hdefine' cx).gives hop)
  | nest hop =>
    left
    simp only [Stage.steady]
    rw [Body.steady_perform (fun h => ne_suspend_of_nested? hop (BodyOp.writer.inj h)) (by simp)]
    exact .nest hop
  | ask hcheck hx hs hbody =>
    left
    simp only [Stage.steady]
    rw [Body.steady_perform (by simp) (by simp)]
    refine .ask hcheck (by simp [Context.steady, hx]) ?_ (by simp [Section.steady, hbody])
    rw [Executed.find?_steady, hs]
    rfl
  | leave hexecute => exact .inl (.leave ((straightens_execute (hn _) lib _ _).gives hexecute))
  | hop ht hcheck => exact .inl (.hop ht hcheck)
  | @startSection depth x s body w w' hcheck =>
    exact .inl (Step.startSection (x := x.steady) (s := s.steady) hcheck)
  | @write depth op next y r y' w w' hop =>
    by_cases hsuspend : op = .suspend
    · subst hsuspend
      obtain ⟨hy, rfl⟩ := Prod.mk.inj (Option.some.inj hop)
      obtain ⟨rfl, rfl⟩ := Prod.mk.inj hy
      exact .inr ⟨rfl, .writing, rfl, rfl⟩
    left
    simp only [Stage.steady]
    rw [SectionBody.steady_perform hsuspend]
    exact .write ((straightens_writer (hn depth) hsuspend y).gives hop)
  | nestWriting hop =>
    left
    simp only [Stage.steady]
    rw [SectionBody.steady_perform (ne_suspend_of_nested? hop)]
    exact .nestWriting hop

theorem Step.of_steady_body {depth : Nat} {p : Body τ ε} {cx : Context τ ε} {m : Moment τ ε}
    (h : Step lib.steady e (.body depth (Body.steady p) cx.steady, w) m) :
    ∃ σ', Reaches lib (.body depth p cx, w) (σ', m.2) ∧ m.1 = σ'.steady := by
  have hn := straightens_renderNested lib
  induction p generalizing cx w with
  | done r => cases h
  | perform op next ih =>
    by_cases hsuspend : op = .writer .suspend
    · subst hsuspend
      obtain ⟨σ', hreaches, hσ'⟩ := ih () h
      exact ⟨σ', .head ⟨_, .perform rfl⟩ hreaches, hσ'⟩
    by_cases hdefine : ∃ name body, op = .defineSection name body
    · obtain ⟨name, body, rfl⟩ := hdefine
      cases h with
      | perform hop =>
        obtain ⟨hcx, rfl⟩ := gives_pure.mp hop
        rw [cx.defineSection_steady] at hcx
        obtain ⟨rfl, rfl⟩ := Prod.mk.inj hcx
        exact ⟨.body depth (next _) _, .single ⟨_, .perform rfl⟩, rfl⟩
    · have hdefine' : ∀ name body, op ≠ .defineSection name body :=
        fun name body h => hdefine ⟨name, body, h⟩
      rw [Body.steady_perform hsuspend hdefine'] at h
      cases h with
      | perform hop =>
        obtain ⟨⟨r, cx'⟩, hop', heq⟩ :=
          (straightens_context (hn depth) hsuspend hdefine' cx).exists_gives hop
        obtain ⟨rfl, rfl⟩ := Prod.mk.inj heq
        exact ⟨.body depth (next _) cx', .single ⟨_, .perform hop'⟩, rfl⟩
      | nest hop => exact ⟨.template _ maxLayouts _ (.new _ _), .single ⟨_, .nest hop⟩, rfl⟩
      | ask hcheck hx hs hbody =>
        obtain ⟨x, hx', rfl⟩ := Option.map_eq_some_iff.mp hx
        rw [Executed.find?_steady] at hs
        obtain ⟨s, hs', rfl⟩ := Option.map_eq_some_iff.mp hs
        obtain ⟨body, hbody', rfl⟩ := Option.map_eq_some_iff.mp hbody
        exact ⟨.asked depth x s body, .single ⟨_, .ask hcheck hx' hs' hbody'⟩, rfl⟩

theorem Step.of_steady_writing {depth : Nat} {p : SectionBody τ ε} {y : Writer} {m : Moment τ ε}
    (h : Step lib.steady e (.writing depth (SectionBody.steady p) y, w) m) :
    ∃ σ', Reaches lib (.writing depth p y, w) (σ', m.2) ∧ m.1 = σ'.steady := by
  have hn := straightens_renderNested lib
  induction p generalizing y w with
  | done r => cases h
  | perform op next ih =>
    by_cases hsuspend : op = .suspend
    · subst hsuspend
      obtain ⟨σ', hreaches, hσ'⟩ := ih () h
      exact ⟨σ', .head ⟨_, .write rfl⟩ hreaches, hσ'⟩
    · rw [SectionBody.steady_perform hsuspend] at h
      cases h with
      | write hop =>
        obtain ⟨⟨r, y'⟩, hop', heq⟩ := (straightens_writer (hn depth) hsuspend y).exists_gives hop
        obtain ⟨rfl, rfl⟩ := Prod.mk.inj heq
        exact ⟨.writing depth (next _) _, .single ⟨_, .write hop'⟩, rfl⟩
      | nestWriting hop =>
        exact ⟨.template _ maxLayouts _ (.new _ _), .single ⟨_, .nestWriting hop⟩, rfl⟩

theorem Step.of_steady {m : Moment τ ε} (h : Step lib.steady e (σ.steady, w) m) :
    ∃ σ', Reaches lib (σ, w) (σ', m.2) ∧ m.1 = σ'.steady := by
  have hn := straightens_renderNested lib
  cases σ with
  | template depth left t cx =>
    cases h with
    | start hcheck => exact ⟨.body depth (lib t).body cx, .single ⟨_, .start hcheck⟩, rfl⟩
    | leave hexecute =>
      obtain ⟨r, hexecute', heq⟩ := (straightens_execute (hn depth) lib t cx).exists_gives hexecute
      cases r with
      | error e => cases heq
      | ok x =>
        obtain rfl := Except.ok.inj heq
        exact ⟨.layouts depth left x, .single ⟨_, .leave hexecute'⟩, rfl⟩
  | body depth p cx => exact h.of_steady_body
  | layouts depth left x =>
    cases h with
    | hop ht hcheck => exact ⟨.template depth _ _ _, .single ⟨_, .hop ht hcheck⟩, rfl⟩
  | asked depth x s p =>
    cases h with
    | startSection hcheck => exact ⟨.writing depth p _, .single ⟨_, .startSection hcheck⟩, rfl⟩
  | writing depth p y => exact h.of_steady_writing

theorem reaches_steady_iff {m : Moment τ ε} :
    Reaches lib.steady (σ.steady, w) m ↔ ∃ σ', Reaches lib (σ, w) (σ', m.2) ∧ m.1 = σ'.steady := by
  constructor
  · intro h
    induction h with
    | refl => exact ⟨σ, .refl, rfl⟩
    | @tail m₁ m _ hstep ih =>
      obtain ⟨σ₁, hreaches, hσ₁⟩ := ih
      obtain ⟨e, hstep⟩ := hstep
      obtain ⟨σ₀, v⟩ := m₁
      obtain rfl : σ₀ = σ₁.steady := hσ₁
      obtain ⟨σ', hrest, hσ'⟩ := hstep.of_steady
      exact ⟨σ', hreaches.trans hrest, hσ'⟩
  · rintro ⟨σ', hreaches, hσ'⟩
    have hforward : ∀ {m m' : Moment τ ε}, Reaches lib m m' →
        Reaches lib.steady (m.1.steady, m.2) (m'.1.steady, m'.2) := by
      intro m m' h
      induction h with
      | refl => exact .refl
      | tail _ hstep ih =>
        obtain ⟨e, hstep⟩ := hstep
        rcases hstep.steady with hstep | ⟨-, -, hsame, hworld⟩
        · exact ih.tail ⟨e, hstep⟩
        · rwa [hsame, hworld]
    obtain ⟨σ₂, v⟩ := m
    obtain rfl : σ₂ = σ'.steady := hσ'
    exact hforward hreaches

end

/-! Whole renders -/

section
variable {r r' : Attempt τ ε α} {w v : World τ ε}

/-- Nothing is lost or repeated where the one executor hands over to the other. -/
theorem drive_outside : drive false r w = await r w := by
  unfold drive await
  cases r w <;> rfl

theorem drive_of_halts (h : r.run.Halts w v) :
    drive true r w = some (.error .suspendedInRuntime, v) := by
  obtain ⟨resume, hpending⟩ := h
  have hr : r w = .pending v resume := hpending
  unfold drive
  rw [hr]
  rfl

theorem drive_of_not_halts (h : ∀ v, ¬ r.run.Halts w v) : drive true r w = await r w := by
  unfold drive await
  cases hr : r w with
  | pending v resume => exact absurd ⟨resume, hr⟩ (h v)
  | _ => rfl

theorem Attempt.Straightens.await_eq (h : Attempt.Straightens id r r') :
    await r' w = await r w := by
  have hsteady : r' w = (r w).unbroken (Except.map id) := h w
  unfold await
  rw [hsteady, Poll.finish_unbroken]
  cases (r w).finish with
  | none => rfl
  | some o =>
    obtain ⟨a, v⟩ := o
    cases a <;> rfl

theorem Attempt.Straightens.not_halts (h : Attempt.Straightens id r r') : ¬ r'.run.Halts w v := by
  rintro ⟨resume, hpending⟩
  rw [h w] at hpending
  exact Poll.unbroken_ne_pending _ _ _ _ hpending

end

section
variable {lib : Library τ ε} {depth : Nat} {t : τ} {token : Token} {w v : World τ ε}

theorem Stops.free {left : Nat} {cx : Context τ ε}
    (h : Stops lib (.template depth left t cx, w) v) :
    w.arrive.signals.isCancelled cx.writer.token = false := by
  rcases halts_attempt_bind.mp h with hexecute | ⟨x, w', hready, -⟩
  · exact (halts_execute.mp hexecute).1
  · rcases gives_execute.mp (gives_of_ready hready) with ⟨-, hr, -⟩ | ⟨hfree, -⟩
    · cases hr
    · exact hfree

theorem halts_renderText : (renderText lib depth t token).run.Halts w v ↔
    Finds lib (entry lib depth t token false w) v := by
  refine halts_check_bind.trans (Iff.trans ?_ stops_template_iff)
  exact ⟨fun h => h.2, fun h => ⟨w.arrive.extends_arrive.free h.free, h⟩⟩

theorem halts_renderToSink :
    (renderToSink lib depth t token).run.Halts w v ↔
      Finds lib (entry lib depth t token true w) v := by
  refine halts_check_bind.trans (Iff.trans ?_ stops_template_iff)
  have hrender : ∀ {x : Attempt τ ε String}, (x >>= World.emit).run.Halts w.arrive v ↔
      x.run.Halts w.arrive v := by
    intro x
    refine halts_attempt_bind.trans (or_iff_left ?_)
    rintro ⟨output, w', -, h⟩
    exact not_halts_emit h
  exact ⟨fun h => hrender.mp h.2, fun h => ⟨w.arrive.extends_arrive.free h.free, hrender.mpr h⟩⟩

end

/-- A render that starts at a moment, compared with that of the same
templates without their suspensions. -/
structure Transparent (render : Library τ ε → Attempt τ ε α) (start : Library τ ε → Moment τ ε)
    (lib : Library τ ε) (w : World τ ε) : Prop where
  /-- Driven on after every stop, by one executor or by two, it comes to what the other comes to,
  which never stops. -/
  outcome : await (render lib.steady) w = await (render lib) w ∧
    drive false (render lib) w = await (render lib) w ∧
    ∀ inRuntime, drive inRuntime (render lib.steady) w = await (render lib) w
  /-- On the way it comes through the same moments. -/
  moments : ∀ m, Reaches lib.steady (start lib.steady) m ↔
    ∃ σ, Reaches lib (start lib) (σ, m.2) ∧ m.1 = σ.steady
  /-- Inside a runtime it fails at the first suspension, having come to it by steps of the render in
  which nothing stops, -/
  stopped : ∀ σ v, Relation.ReflTransGen (Prompt lib) (start lib) (σ, v) → σ.Suspends →
    Reaches lib (start lib) (σ, v) ∧ drive true (render lib) w =
      some (.error .suspendedInRuntime, v)
  /-- and ends as ever if it comes to none. -/
  unstopped : (∀ σ v, Relation.ReflTransGen (Prompt lib) (start lib) (σ, v) → ¬ σ.Suspends) →
    drive true (render lib) w = await (render lib) w

theorem transparent_of {render : Library τ ε → Attempt τ ε α} {start : Library τ ε → Moment τ ε}
    {lib : Library τ ε}
    {w : World τ ε} (hsteady : Attempt.Straightens id (render lib) (render lib.steady))
    (hhalts : ∀ v, (render lib).run.Halts w v ↔ Finds lib (start lib) v)
    (hstart : start lib.steady = ((start lib).1.steady, (start lib).2)) :
    Transparent render start lib w := by
  refine ⟨⟨hsteady.await_eq, drive_outside, fun inRuntime => ?drive⟩, fun m =>
    ?moments, fun σ v hpath hσ => ⟨?path, ?stopped⟩,
    fun hnone => ?unstopped⟩
  case drive =>
    rw [← hsteady.await_eq]
    cases inRuntime with
    | false => exact drive_outside
    | true => exact drive_of_not_halts fun _ => hsteady.not_halts
  case moments =>
    rw [hstart]
    exact reaches_steady_iff
  case path => exact hpath.lift id fun _ _ h => h.step
  case stopped => exact drive_of_halts ((hhalts v).mpr ⟨σ, hpath, hσ⟩)
  case unstopped =>
    refine drive_of_not_halts fun v h => ?_
    obtain ⟨σ, hpath, hσ⟩ := (hhalts v).mp h
    exact hnone σ v hpath hσ

/-- Suspensions in bodies, sections, layouts and nested templates change nothing about a render, to
a text or to the sink. -/
theorem suspension_transparent (lib : Library τ ε) (depth : Nat) (t : τ) (token : Token)
    (w : World τ ε) :
    Transparent (fun lib => renderText lib depth t token) (fun lib =>
      entry lib depth t token false w) lib w ∧
    Transparent (fun lib => renderToSink lib depth t token) (fun lib =>
      entry lib depth t token true w) lib w :=
  ⟨transparent_of (straightens_renderText lib depth t token) (fun _ => halts_renderText) rfl,
    transparent_of (straightens_renderToSink lib depth t token) (fun _ => halts_renderToSink) rfl⟩

/-- A page that reports on both sides of a suspension. -/
def pausing : Library Unit Nat := fun _ =>
  { body := .perform (.writer (.report 1)) fun _ => .perform (.writer .suspend) fun _ =>
      .perform (.writer (.report 2)) fun _ => .done (.ok ()) }

example : (drive true (renderText pausing 0 () ⟨0⟩) {}).map (fun (r, w) => (r, w.reports)) =
    some (.error .suspendedInRuntime, [1]) := rfl

example : (drive false (renderText pausing 0 () ⟨0⟩) {}).map (fun (r, w) => (r, w.reports)) =
    some (.ok "", [1, 2]) := rfl

end Templating.Render
