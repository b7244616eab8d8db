import Templating.Render.Rendering
import Templating.Proofs.Render.Task

/-! Properties of tasks that a whole render has as soon as its single steps have them. -/
namespace Templating.Render
variable {τ ε α β : Type}

/-- The property holds of the steps of a render and of what is put together from tasks that have it.
Handing over output to the sink is left out: only the page itself does so. -/
structure Closed (P : ∀ {α : Type}, Run τ ε α → Prop) : Prop where
  pure : ∀ {α : Type} (a : α), P (pure a : Run τ ε α)
  bind : ∀ {α β : Type} {t : Run τ ε α} {f : α → Run τ ε β}, P t →
    (∀ a w w', t.Gives w a w' → P (f a)) → P (t >>= f)
  check : ∀ token, P (World.check token : Attempt τ ε Unit).run
  record : ∀ e, P (World.record e)
  cancel : ∀ token, P (World.cancel token : Run τ ε Unit)
  suspend : P (Task.suspend : Run τ ε Unit)
  endless : ∀ {α : Type}, P (Task.endless : Run τ ε α)

theorem flush_cases {cx cx' : Context τ ε} {r : Except RenderError Unit} {w w' : World τ ε}
    (h : cx.flush.Gives w (r, cx') w') :
    (cx.layout?.isSome ∧ r = .error .flushWithLayout ∧ cx' = cx ∧ w' = w) ∨
      (cx.layout? = none ∧ cx.direct = false ∧ r = .ok () ∧ cx' = cx ∧ w' = w) ∨
      (cx.layout? = none ∧ cx.direct = true ∧
        (World.emit cx.writer.output : Attempt τ ε Unit).run.Gives w r w' ∧
        cx' = { cx with writer := { cx.writer with output := "" }, flushed := cx.flushed ||
          r.isOk }) := by
  unfold Context.flush at h
  split at h
  next hlayout =>
    obtain ⟨hx, rfl⟩ := gives_pure.mp h
    obtain ⟨rfl, rfl⟩ := Prod.mk.inj hx
    exact .inl ⟨hlayout, rfl, rfl, rfl⟩
  next hlayout =>
    have hnone : cx.layout? = none := by simpa using hlayout
    split at h
    next hdirect =>
      obtain ⟨hx, rfl⟩ := gives_pure.mp h
      obtain ⟨rfl, rfl⟩ := Prod.mk.inj hx
      exact .inr (.inl ⟨hnone, by simpa using hdirect, rfl, rfl, rfl⟩)
    next hdirect =>
      obtain ⟨r', w₁, hemit, hp⟩ := gives_bind.mp h
      obtain ⟨hx, rfl⟩ := gives_pure.mp hp
      obtain ⟨rfl, rfl⟩ := Prod.mk.inj hx
      exact .inr (.inr ⟨hnone, by simpa using hdirect, hemit, rfl⟩)

theorem direct_perform {nested : Nested τ ε} {op : BodyOp τ ε} {cx cx' : Context τ ε} {r : op.Reply}
    {w w' : World τ ε} (h : (cx.perform nested op).Gives w (r, cx') w') :
    cx'.direct = cx.direct ∧ (op ≠ .flush → cx'.flushed = cx.flushed) := by
  cases op with
  | writer op =>
    obtain ⟨_, _, -, hp⟩ := gives_bind.mp h
    obtain ⟨-, rfl⟩ := Prod.mk.inj (gives_pure.mp hp).1
    exact ⟨rfl, fun _ => rfl⟩
  | setLayout t =>
    have hcx : cx.setLayout t = (r, cx') := (gives_pure.mp h).1
    unfold Context.setLayout at hcx
    split at hcx <;> obtain ⟨-, rfl⟩ := Prod.mk.inj hcx <;> exact ⟨rfl, fun _ => rfl⟩
  | defineSection name body =>
    have hcx : cx.defineSection name body = (r, cx') := (gives_pure.mp h).1
    unfold Context.defineSection at hcx
    split at hcx <;> obtain ⟨-, rfl⟩ := Prod.mk.inj hcx <;> exact ⟨rfl, fun _ => rfl⟩
  | renderBody | isSectionDefined =>
    obtain ⟨-, rfl⟩ := Prod.mk.inj (gives_pure.mp h).1
    exact ⟨rfl, fun _ => rfl⟩
  | renderSection name required =>
    obtain ⟨c, _, -, h⟩ := gives_bind.mp h
    split at h
    · obtain ⟨-, rfl⟩ := Prod.mk.inj (gives_pure.mp h).1
      exact ⟨rfl, fun _ => rfl⟩
    split at h
    · obtain ⟨-, rfl⟩ := Prod.mk.inj (gives_pure.mp h).1
      exact ⟨rfl, fun _ => rfl⟩
    · obtain ⟨_, _, -, hp⟩ := gives_bind.mp h
      obtain ⟨-, rfl⟩ := Prod.mk.inj (gives_pure.mp hp).1
      exact ⟨rfl, fun _ => rfl⟩
  | flush =>
    refine ⟨?_, fun hop => absurd rfl hop⟩
    rcases flush_cases h with ⟨-, -, rfl, -⟩ | ⟨-, -, -, rfl, -⟩ | ⟨-, -, -, rfl⟩ <;> rfl

namespace Closed
variable {P : ∀ {α : Type}, Run τ ε α → Prop} (hP : Closed P)
include hP

theorem attempt_bind {x : Attempt τ ε α} {f : α → Attempt τ ε β} (hx : P x.run)
    (hf : ∀ a, P (f a).run) : P (x >>= f).run := by
  refine hP.bind hx fun r _ _ _ => ?_
  cases r with
  | ok a => exact hf a
  | error e => exact hP.pure _

theorem lift {t : Run τ ε α} (ht : P t) : P (liftM t : Attempt τ ε α).run :=
  hP.bind ht fun _ _ _ _ => hP.pure _

/-- A program has the property if each of its operations has it, in all states that an invariant
lets through. -/
theorem run {S : Signature} {σ : Type} {handle : (op : S.Op) → σ → Run τ ε (S.Reply op × σ)}
    {I : σ → Prop} (hhandle : ∀ op s, I s → P (handle op s))
    (hI : ∀ {op s w r s' w'}, I s → (handle op s).Gives w (r, s') w' → I s') (p : Program S α)
    {s : σ} (hs : I s) :
    P (p.run handle s) := by
  induction p generalizing s with
  | done a => exact hP.pure _
  | perform op next ih => exact hP.bind (hhandle op s hs) fun x _ _ hx => ih x.1 (hI hs hx)

variable {nested : Nested τ ε} (hn : ∀ t token, P (nested t token).run)
include hn

theorem complete (o : Written τ) : P (Writer.complete nested o) := by
  cases o with
  | done r x => exact hP.pure _
  | nested t x =>
    refine hP.bind (hn t x.token) fun r _ _ _ => ?_
    cases r with
    | ok s => exact hP.pure _
    | error e => exact hP.pure _

theorem writer (op : WriterOp τ ε) (x : Writer) : P (x.perform nested op) := by
  cases op with
  | write v => exact hP.complete hn _
  | part lead v literal => exact hP.complete hn _
  | cancel => exact hP.bind (hP.cancel x.token) fun _ _ _ _ => hP.pure _
  | check => exact hP.bind (hP.check x.token) fun _ _ _ _ => hP.pure _
  | suspend => exact hP.bind hP.suspend fun _ _ _ _ => hP.pure _
  | report e => exact hP.bind (hP.record _) fun _ _ _ _ => hP.pure _
  | _ => exact hP.pure _

theorem runSection (x : Executed τ ε) (s : Section τ ε) (body : SectionBody τ ε) :
    P (x.runSection nested s body).run := by
  refine hP.attempt_bind (hP.check x.token) fun _ => ?_
  refine hP.attempt_bind (hP.lift (hP.record _)) fun _ => ?_
  refine hP.attempt_bind (hP.lift ?_) fun _ => hP.pure _
  exact hP.run (I := fun _ => True) (fun op y _ => hP.writer hn op y) (fun _ _ => trivial)
    body trivial

theorem renderSection (x : Executed τ ε) (name : String) : P (x.renderSection nested name) := by
  unfold Executed.renderSection
  split
  · exact hP.pure _
  split
  · exact hP.pure _
  · exact hP.bind (hP.runSection hn x _ _) fun _ _ _ _ => hP.pure _

theorem context (cx : Context τ ε)
    (he : cx.direct = true → ∀ chunk, P (World.emit chunk : Attempt τ ε Unit).run)
    (op : BodyOp τ ε) : P (cx.perform nested op) := by
  cases op with
  | writer op => exact hP.bind (hP.writer hn op cx.writer) fun _ _ _ _ => hP.pure _
  | renderSection name required =>
    refine hP.bind (hP.check cx.writer.token) fun r _ _ _ => ?_
    split
    · exact hP.pure _
    split
    · exact hP.pure _
    · exact hP.bind (hP.renderSection hn _ name) fun _ _ _ _ => hP.pure _
  | flush =>
    show P cx.flush
    unfold Context.flush
    split
    · exact hP.pure _
    split
    · exact hP.pure _
    next hdirect => exact hP.bind (he (by simpa using hdirect) _) fun _ _ _ _ => hP.pure _
  | _ => exact hP.pure _

theorem body (p : Body τ ε) (cx : Context τ ε)
    (he : cx.direct = true → ∀ chunk, P (World.emit chunk : Attempt τ ε Unit).run) :
    P (p.run (Context.perform nested) cx) :=
  hP.run (I := fun cx => cx.direct = true → ∀ chunk, P (World.emit chunk : Attempt τ ε Unit).run)
    (fun op cx h => hP.context hn cx h op) (fun h hop => (direct_perform hop).1 ▸ h) p he

theorem execute (lib : Library τ ε) (t : τ) (cx : Context τ ε)
    (he : cx.direct = true → ∀ chunk, P (World.emit chunk : Attempt τ ε Unit).run) :
    P (Templating.Render.execute lib nested t cx).run := by
  refine hP.attempt_bind (hP.check _) fun _ => ?_
  refine hP.attempt_bind (hP.lift (hP.record _)) fun _ => ?_
  exact hP.attempt_bind (hP.lift (hP.body hn _ cx he)) fun _ => hP.pure _

theorem compose (lib : Library τ ε) (left : Nat) (x : Executed τ ε) :
    P (Templating.Render.compose lib nested left x).run := by
  induction left generalizing x with
  | zero =>
    unfold Templating.Render.compose
    split <;> exact hP.pure _
  | succ left ih =>
    unfold Templating.Render.compose
    split
    · exact hP.pure _
    · refine hP.attempt_bind (hP.check x.token) fun _ => ?_
      exact hP.attempt_bind (hP.execute hn lib _ _ (by simp [Context.new])) fun y => ih y

theorem renderIn (lib : Library τ ε) (t : τ) (cx : Context τ ε)
    (he : cx.direct = true → ∀ chunk, P (World.emit chunk : Attempt τ ε Unit).run) :
    P (Templating.Render.renderIn lib nested t cx).run :=
  hP.attempt_bind (hP.execute hn lib t cx he) fun y => hP.compose hn lib maxLayouts y

omit hn in
theorem renderNested (lib : Library τ ε) (depth : Nat) (t : τ) (token : Token) :
    P (Templating.Render.renderNested lib depth t token).run := by
  induction depth generalizing t token with
  | zero => exact hP.endless
  | succ depth ih => exact hP.renderIn ih lib t _ (by simp [Context.new])

end Closed

end Templating.Render
