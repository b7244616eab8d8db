import Templating.Proofs.Render.Closure

/-! A world only grows in a render: what has been logged stays logged, and what
is cancelled stays cancelled. -/
namespace Templating.Render
variable {τ ε α β : Type}

/-- The later world logs the same and more, and has the same tokens cancelled and more. -/
structure World.Extends (w w' : World τ ε) : Prop where
  log : w.log <+: w'.log
  cancelled : w.signals.cancelled ⊆ w'.signals.cancelled

namespace World.Extends
variable {w w' w'' : World τ ε}

theorem refl (w : World τ ε) : w.Extends w := ⟨List.prefix_rfl, fun _ h => h⟩

theorem trans (h : w.Extends w') (h' : w'.Extends w'') : w.Extends w'' :=
  ⟨h.log.trans h'.log, fun _ ht => h'.cancelled (h.cancelled ht)⟩

theorem free (h : w.Extends w') {token : Token} (hw : w'.signals.isCancelled token = false) :
    w.signals.isCancelled token = false := by
  have hnot : token ∉ w'.signals.cancelled := by simpa [Signals.isCancelled] using hw
  have hnot' : token ∉ w.signals.cancelled := fun ht => hnot (h.cancelled ht)
  simpa [Signals.isCancelled] using hnot'

end World.Extends

theorem Signals.subset_foldl_cancel (ts : List Token) (s : Signals) :
    s.cancelled ⊆ (ts.foldl Signals.cancel s).cancelled := by
  induction ts generalizing s with
  | nil => exact fun _ h => h
  | cons t ts ih =>
    intro x hx
    exact ih (s.cancel t) (List.mem_cons_of_mem t hx)

theorem World.extends_arrive (w : World τ ε) : w.Extends w.arrive := by
  unfold World.arrive
  split
  · exact .refl w
  · exact ⟨List.prefix_rfl, Signals.subset_foldl_cancel _ _⟩

@[simp] theorem World.arrive_log (w : World τ ε) : w.arrive.log = w.log := by
  unfold World.arrive
  split <;> rfl

@[simp] theorem World.arrive_sink (w : World τ ε) : w.arrive.sink = w.sink := by
  unfold World.arrive
  split <;> rfl

/-- However the task ends, it leaves a world that extends the one it found. -/
def Task.Grows (t : Run τ ε α) : Prop := ∀ ⦃w a w'⦄, t.Gives w a w' → w.Extends w'

theorem Task.Grows.bind {t : Run τ ε α} {f : α → Run τ ε β} (ht : t.Grows)
    (hf : ∀ a w w', t.Gives w a w' → (f a).Grows) :
    (t >>= f).Grows := by
  intro w b w'' h
  obtain ⟨a, w', ha, hb⟩ := gives_bind.mp h
  exact (ht ha).trans (hf a w w' ha hb)

def Attempt.Grows (x : Attempt τ ε α) : Prop := Task.Grows x.run

/-! The steps -/

theorem gives_check {token : Token} {w w' : World τ ε} {r : Except RenderError Unit} :
    (World.check token : Attempt τ ε Unit).run.Gives w r w' ↔ w.arrive.signals.check token = r ∧
      w.arrive = w' := by
  show (Poll.finish (.ready (w.arrive.signals.check token) w.arrive)) = some (r, w') ↔ _
  simp [Poll.finish]

theorem gives_check_free {token : Token} {w : World τ ε}
    (hfree : w.arrive.signals.isCancelled token = false) :
    (World.check token : Attempt τ ε Unit).run.Gives w (.ok ()) w.arrive :=
  gives_check.mpr ⟨by simp [Signals.check, hfree], rfl⟩

theorem check_free {token : Token} {w : World τ ε}
    (hfree : w.arrive.signals.isCancelled token = false) :
    (World.check token : Attempt τ ε Unit).run w = .ready (.ok ()) w.arrive := by
  show Poll.ready (w.arrive.signals.check token) w.arrive = _
  simp [Signals.check, hfree]

theorem cancelled_arrive {token : Token} {w : World τ ε} (h : w.signals.isCancelled token = true) :
    w.arrive.signals.isCancelled token = true := by
  have hmem : token ∈ w.signals.cancelled := by simpa [Signals.isCancelled] using h
  simpa [Signals.isCancelled] using w.extends_arrive.cancelled hmem

theorem check_cancelled {token : Token} {w : World τ ε}
    (h : w.arrive.signals.isCancelled token = true) :
    (World.check token : Attempt τ ε Unit).run w = .ready (.error (.cancelled token)) w.arrive := by
  show Poll.ready (w.arrive.signals.check token) w.arrive = _
  simp [Signals.check, h]

theorem check_bind_cancelled {token : Token} {f : Unit → Attempt τ ε α} {w : World τ ε}
    (h : w.arrive.signals.isCancelled token = true) :
    (World.check token >>= f : Attempt τ ε α) w = .ready (.error (.cancelled token)) w.arrive :=
  bind_of_ready (f := ExceptT.bindCont f) (check_cancelled h)

theorem cancelled_of_gives_check {token : Token} {w w' : World τ ε} {e : RenderError}
    (h : (World.check token : Attempt τ ε Unit).run.Gives w (.error e) w') :
    w'.signals.isCancelled token = true := by
  obtain ⟨hc, rfl⟩ := gives_check.mp h
  unfold Signals.check at hc
  split at hc
  · assumption
  · cases hc

theorem free_of_gives_check {token : Token} {w w' : World τ ε} {u : Unit}
    (h : (World.check token : Attempt τ ε Unit).run.Gives w (.ok u) w') :
    w'.signals.isCancelled token = false := by
  obtain ⟨hc, rfl⟩ := gives_check.mp h
  unfold Signals.check at hc
  split at hc
  · cases hc
  next hfree => simpa using hfree

theorem gives_check_bind {token : Token} {f : Unit → Attempt τ ε α} {w w' : World τ ε}
    {r : Except RenderError α} :
    ((World.check token : Attempt τ ε Unit) >>= f).run.Gives w r w' ↔
      (w.arrive.signals.isCancelled token = true ∧ r = .error (.cancelled token) ∧ w' = w.arrive) ∨
        (w.arrive.signals.isCancelled token = false ∧ (f ()).run.Gives w.arrive r w') := by
  rw [gives_attempt_bind]
  constructor
  · rintro (⟨e, hcheck, rfl⟩ | ⟨u, w₁, hcheck, h⟩)
    · have hcancelled := cancelled_of_gives_check hcheck
      obtain ⟨hc, rfl⟩ := gives_check.mp hcheck
      simp only [Signals.check, hcancelled, if_true] at hc
      exact .inl ⟨hcancelled, by rw [← Except.error.inj hc], rfl⟩
    · have hfree := free_of_gives_check hcheck
      obtain ⟨-, rfl⟩ := gives_check.mp hcheck
      exact .inr ⟨hfree, h⟩
  · rintro (⟨hcancelled, rfl, rfl⟩ | ⟨hfree, h⟩)
    · exact .inl ⟨_, gives_check.mpr ⟨by simp [Signals.check, hcancelled], rfl⟩, rfl⟩
    · exact .inr ⟨(), _, gives_check_free hfree, h⟩

theorem gives_emit {chunk : String} {w w' : World τ ε} {r : Except RenderError Unit} :
    (World.emit chunk : Attempt τ ε Unit).run.Gives w r w' ↔
      (∃ sink, w.sink.write? chunk = some sink ∧ r = .ok () ∧ w' = { w with sink }) ∨
        w.sink.write? chunk = none ∧ r = .error .sink ∧ w' = w := by
  show (World.emit chunk w : Poll (World τ ε) (Except RenderError Unit)).finish = some (r, w') ↔ _
  unfold World.emit
  split
  next sink h => simp [Poll.finish, h, eq_comm]
  next h => simp [Poll.finish, h, eq_comm]

theorem grows_modify {f : World τ ε → World τ ε} (hf : ∀ w : World τ ε, w.Extends (f w)) :
    (Task.modify f).Grows := by
  intro w u w' h
  obtain rfl := gives_modify.mp h
  exact hf w

theorem closed_grows : Closed (τ := τ) (ε := ε) Task.Grows := by
  refine ⟨?pure, Task.Grows.bind, ?check, ?record, ?cancel, ?suspend, ?endless⟩
  case pure =>
    intro α a w b w' h
    obtain ⟨-, rfl⟩ := gives_pure.mp h
    exact .refl w
  case check =>
    intro token w r w' h
    obtain ⟨-, rfl⟩ := gives_check.mp h
    exact w.extends_arrive
  case record => exact fun e => grows_modify fun w => ⟨List.prefix_append w.log [e], fun _ h => h⟩
  case cancel => exact fun token => grows_modify fun _ =>
    ⟨List.prefix_rfl, fun _ h => List.mem_cons_of_mem token h⟩
  case suspend =>
    intro w u w' h
    obtain rfl := gives_suspend.mp h
    exact .refl w'
  case endless =>
    intro α w a w' h
    cases h

theorem grows_emit (chunk : String) : Attempt.Grows (World.emit chunk : Attempt τ ε Unit) := by
  intro w r w' h
  rcases gives_emit.mp h with ⟨sink, -, -, rfl⟩ | ⟨-, -, rfl⟩
  · exact ⟨List.prefix_rfl, fun _ h => h⟩
  · exact .refl _

theorem grows_run {S : Signature} {σ : Type} {handle : (op : S.Op) → σ → Run τ ε (S.Reply op × σ)}
    (hh : ∀ op s, (handle op s).Grows) (p : Program S α) (s : σ) : (p.run handle s).Grows :=
  closed_grows.run (I := fun _ => True) (fun op s _ => hh op s) (fun _ _ => trivial) p trivial

theorem grows_context {nested : Nested τ ε} (hn : ∀ t token, Attempt.Grows (nested t token))
    (op : BodyOp τ ε) (cx : Context τ ε) : (cx.perform nested op).Grows :=
  closed_grows.context hn cx (fun _ => grows_emit) op

theorem grows_renderNested (lib : Library τ ε) (depth : Nat) (t : τ) (token : Token) :
    Attempt.Grows (renderNested lib depth t token) :=
  closed_grows.renderNested lib depth t token

/-! The start of a body -/

def World.recorded (w : World τ ε) (e : Event τ ε) : World τ ε := { w with log := w.log ++ [e] }

theorem gives_start {token : Token} {e : Event τ ε} {σ : Type}
    {t : Run τ ε (Except RenderError Unit × σ)} {g : σ → β}
    {w w' : World τ ε} {r : Except RenderError β} :
    (show Attempt τ ε β from do
      World.check token
      (World.record e : Run τ ε Unit)
      let (r, s) ← t
      ExceptT.mk (pure (r.map fun _ => g s))).run.Gives w r w' ↔
    (w.arrive.signals.isCancelled token = true ∧ r = .error (.cancelled token) ∧ w' = w.arrive) ∨
      (w.arrive.signals.isCancelled token = false ∧ ∃ r' s,
        t.Gives (w.arrive.recorded e) (r', s) w' ∧
        r = r'.map fun _ => g s) := by
  rw [gives_check_bind]
  refine or_congr Iff.rfl (and_congr Iff.rfl ?_)
  rw [gives_lift_bind]
  constructor
  · rintro ⟨_, w₁, hrecord, h⟩
    obtain rfl := gives_modify.mp hrecord
    obtain ⟨⟨r', s⟩, w₂, hbody, h⟩ := gives_lift_bind.mp h
    obtain ⟨hr, rfl⟩ := gives_pure.mp h
    exact ⟨r', s, hbody, hr.symm⟩
  · rintro ⟨r', s, hbody, rfl⟩
    refine ⟨(), _, gives_modify.mpr rfl, gives_lift_bind.mpr ⟨(r', s), w', hbody, ?_⟩⟩
    exact gives_pure.mpr ⟨rfl, rfl⟩

theorem start_free {token : Token} {e : Event τ ε} {σ : Type}
    {t : Run τ ε (Except RenderError Unit × σ)} {g : σ → β}
    {w : World τ ε} (hfree : w.arrive.signals.isCancelled token = false) :
    (show Attempt τ ε β from do
      World.check token
      (World.record e : Run τ ε Unit)
      let (r, s) ← t
      ExceptT.mk (pure (r.map fun _ => g s))).run w =
    (t >>= fun o => pure (o.1.map fun _ => g o.2)) (w.arrive.recorded e) := by
  refine (attempt_bind_of_ok (check_free hfree)).trans ?_
  show ((t >>= fun o => pure (.ok o)) >>= ExceptT.bindCont fun o =>
    ExceptT.mk (pure (o.1.map fun _ => g o.2)))
    (w.arrive.recorded e) = _
  rw [bind_assoc]
  rfl

theorem gives_execute {lib : Library τ ε} {nested : Nested τ ε} {t : τ} {cx : Context τ ε}
    {w w' : World τ ε}
    {r : Except RenderError (Executed τ ε)} : (execute lib nested t cx).run.Gives w r w' ↔
      (w.arrive.signals.isCancelled cx.writer.token = true ∧
        r = .error (.cancelled cx.writer.token) ∧ w' = w.arrive) ∨
        (w.arrive.signals.isCancelled cx.writer.token = false ∧ ∃ r' cx',
          ((lib t).body.run (Context.perform nested) cx).Gives (w.arrive.recorded (.started t))
            (r', cx') w' ∧
            r = r'.map fun _ => cx'.executed) :=
  gives_start

theorem gives_runSection {nested : Nested τ ε} {x : Executed τ ε} {s : Section τ ε}
    {body : SectionBody τ ε} {w w' : World τ ε}
    {r : Except RenderError String} : (x.runSection nested s body).run.Gives w r w' ↔
      (w.arrive.signals.isCancelled x.token = true ∧ r = .error (.cancelled x.token) ∧
        w' = w.arrive) ∨
        (w.arrive.signals.isCancelled x.token = false ∧ ∃ r' y,
          (body.run (Writer.perform nested) { kind := x.kind, token := x.token }).Gives
            (w.arrive.recorded (.sectionStarted s.name)) (r', y) w' ∧ r = r'.map fun _ =>
              y.output) :=
  gives_start

/-! Layouts -/

section
variable {lib : Library τ ε} {nested : Nested τ ε} {left : Nat} {x : Executed τ ε} {t : τ}

theorem compose_settled (hx : x.layout? = none) : compose lib nested left x = pure x.output := by
  unfold compose
  rw [hx]

theorem compose_exceeded (hx : x.layout? = some t) :
    compose lib nested 0 x = throw (.layoutDepthExceeded maxLayouts) := by
  rw [compose, hx]

theorem compose_around (hx : x.layout? = some t) : compose lib nested (left + 1) x = (do
    World.check x.token
    let y ← execute lib nested t
      { Context.new (lib t).kind x.token with input? := some { x with layout? := none } }
    compose lib nested left y) := by
  rw [compose, hx]

end

end Templating.Render
