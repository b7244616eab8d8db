import Templating.Proofs.Render.World

/-! Templates without their suspensions. They render without a stop, to the same end. -/
namespace Templating.Render
variable {ω α β α' β' τ ε : Type}

/-! Programs -/

/-- The program without its suspensions. -/
def SectionBody.steady : Program (writing τ ε) α → Program (writing τ ε) α
  | .done a => .done a
  | .perform .suspend next => steady (next ())
  | .perform op next => .perform op fun r => steady (next r)

/-- The program without its suspensions and those of the sections that it defines. -/
def Body.steady : Program (composing τ ε) α → Program (composing τ ε) α
  | .done a => .done a
  | .perform (.writer .suspend) next => steady (next ())
  | .perform (.defineSection name body) next =>
    .perform (.defineSection name (SectionBody.steady body)) fun r => steady (next r)
  | .perform op next => .perform op fun r => steady (next r)

def Library.steady (lib : Library τ ε) : Library τ ε :=
  fun t => { lib t with body := Body.steady (lib t).body }

def Section.steady (s : Section τ ε) : Section τ ε :=
  { s with body? := s.body?.map SectionBody.steady }

def Executed.steady (x : Executed τ ε) : Executed τ ε :=
  { x with sections := x.sections.map Section.steady }

def Context.steady (cx : Context τ ε) : Context τ ε :=
  { cx with sections := cx.sections.map Section.steady, input? := cx.input?.map Executed.steady }

/-! Polls -/

/-- What comes of a poll when nothing stops, with another result for each of its results. -/
def Poll.unbroken (φ : α → β) : Poll ω α → Poll ω β
  | .ready a w => .ready (φ a) w
  | .pending w resume => (resume w).unbroken φ
  | .endless => .endless

theorem Poll.finish_unbroken (φ : α → β) (p : Poll ω α) :
    (p.unbroken φ).finish = p.finish.map (Prod.map φ id) := by
  induction p with
  | ready a w => rfl
  | pending w resume ih => exact ih w
  | endless => rfl

theorem Poll.unbroken_ne_pending (φ : α → β) (p : Poll ω α) (w : ω) (resume : ω → Poll ω β) :
    p.unbroken φ ≠ .pending w resume := by
  induction p with
  | ready a w => exact fun h => by cases h
  | pending w resume ih => exact ih w
  | endless => exact fun h => by cases h

/-- The second task does what the first does, but never stops. -/
def Task.Straightens (φ : α → β) (t : Task ω α) (u : Task ω β) : Prop := ∀ w, u w = (t w).unbroken φ

section
variable {φ : α → β} {ψ : α' → β'} {t : Task ω α} {u : Task ω β}

theorem straightens_pure (a : α) : Task.Straightens φ (pure a : Task ω α) (pure (φ a)) :=
  fun _ => rfl

theorem straightens_modify (f : ω → ω) : Task.Straightens id (Task.modify f) (Task.modify f) :=
  fun _ => rfl

theorem Task.Straightens.bind {g : α → Task ω α'} {k : β → Task ω β'} (h : Task.Straightens φ t u)
    (hg : ∀ a, Task.Straightens ψ (g a) (k (φ a))) : Task.Straightens ψ (t >>= g) (u >>= k) := by
  have hbind : ∀ p : Poll ω α, (p.unbroken φ).bind k = (p.bind g).unbroken ψ := by
    intro p
    induction p with
    | ready a w => exact hg a w
    | pending w resume ih => exact ih w
    | endless => rfl
  intro w
  show (u w).bind k = ((t w).bind g).unbroken ψ
  rw [h w, hbind]

theorem straightens_ite {c : Prop} [Decidable c] {t' : Task ω α} {u' : Task ω β}
    (h : Task.Straightens φ t u) (h' : Task.Straightens φ t' u') :
    Task.Straightens φ (if c then t else t') (if c then u else u') := by
  split
  · exact h
  · exact h'

theorem Task.Straightens.gives (h : Task.Straightens φ t u) {a : α} {w w' : ω}
    (ht : t.Gives w a w') : u.Gives w (φ a) w' := by
  rw [Task.Gives, h w, Poll.finish_unbroken, show (t w).finish = some (a, w') from ht]
  rfl

theorem Task.Straightens.exists_gives (h : Task.Straightens φ t u) {b : β} {w w' : ω}
    (hu : u.Gives w b w') :
    ∃ a, t.Gives w a w' ∧ b = φ a := by
  rw [Task.Gives, h w, Poll.finish_unbroken] at hu
  obtain ⟨⟨a, v⟩, ha, heq⟩ := Option.map_eq_some_iff.mp hu
  obtain ⟨rfl, rfl⟩ := Prod.mk.inj heq
  exact ⟨a, ha, rfl⟩

end

/-! Attempts -/

def Attempt.Straightens (φ : α → β) (x : Attempt τ ε α) (y : Attempt τ ε β) : Prop :=
  Task.Straightens (Except.map φ) x.run y.run

section
variable {φ : α → β} {ψ : α' → β'} {x : Attempt τ ε α} {y : Attempt τ ε β}

theorem Attempt.Straightens.bind {g : α → Attempt τ ε α'} {k : β → Attempt τ ε β'}
    (h : Attempt.Straightens φ x y) (hg : ∀ a, Attempt.Straightens ψ (g a) (k (φ a))) :
    Attempt.Straightens ψ (x >>= g) (y >>= k) := by
  refine Task.Straightens.bind h fun r => ?_
  cases r with
  | ok a => exact hg a
  | error e => exact straightens_pure _

theorem Task.Straightens.lift {t : Run τ ε α} {u : Run τ ε β} (h : Task.Straightens φ t u) :
    Attempt.Straightens φ (liftM t : Attempt τ ε α) (liftM u : Attempt τ ε β) :=
  Task.Straightens.bind h fun a => straightens_pure (φ := Except.map φ) (.ok a)

theorem straightens_check (token : Token) :
    Task.Straightens id (World.check token : Attempt τ ε Unit).run (World.check token).run :=
  fun _ => rfl

theorem straightens_emit (chunk : String) :
    Task.Straightens id (World.emit chunk : Attempt τ ε Unit).run (World.emit chunk).run := by
  intro w
  show World.emit chunk w = (World.emit chunk w).unbroken id
  unfold World.emit
  split <;> rfl

end

theorem Attempt.Straightens.of_task {x : Attempt τ ε α} (h : Task.Straightens id x.run x.run) :
    Attempt.Straightens id x x := by
  have hid : (Except.map id : Except RenderError α → Except RenderError α) = id := by
    funext r
    cases r <;> rfl
  unfold Attempt.Straightens
  rwa [hid]

theorem straightens_look (token : Token) :
    Attempt.Straightens id (World.check token : Attempt τ ε Unit) (World.check token) :=
  .of_task (straightens_check token)

theorem straightens_start {σ σ' : Type} {θ : σ → σ'} {φ : α → β} {token : Token} {e : Event τ ε}
    {t : Run τ ε (Except RenderError Unit × σ)} {u : Run τ ε (Except RenderError Unit × σ')}
      {g : σ → α} {k : σ' → β}
    (h : Task.Straightens (Prod.map id θ) t u) (hg : ∀ s, k (θ s) = φ (g s)) :
    Attempt.Straightens φ
      (show Attempt τ ε α from do
        World.check token
        (World.record e : Run τ ε Unit)
        let (r, s) ← t
        ExceptT.mk (pure (r.map fun _ => g s)))
      (show Attempt τ ε β from do
        World.check token
        (World.record e : Run τ ε Unit)
        let (r, s) ← u
        ExceptT.mk (pure (r.map fun _ => k s))) := by
  refine (straightens_look token).bind fun _ => ?_
  refine (straightens_modify (fun w : World τ ε => { w with log := w.log ++ [e] })).lift.bind
    fun _ => ?_
  refine h.lift.bind fun o => ?_
  obtain ⟨r, s⟩ := o
  show Task.Straightens (Except.map φ) (pure (r.map fun _ => g s)) (pure (r.map fun _ => k (θ s)))
  rw [hg]
  cases r <;> exact straightens_pure _

/-! Renders -/

/-- Templates that are rendered inside others without a stop. -/
def Nested.Straightens (nested nested' : Nested τ ε) : Prop :=
  ∀ t token, Attempt.Straightens id (nested t token) (nested' t token)

section
variable {nested nested' : Nested τ ε} (hn : Nested.Straightens nested nested')
include hn

theorem straightens_complete (o : Written τ) :
    Task.Straightens id (Writer.complete nested o) (Writer.complete nested' o) := by
  cases o with
  | done r y => exact straightens_pure _
  | nested t y =>
    refine Task.Straightens.bind (hn t y.token) fun r => ?_
    cases r <;> exact straightens_pure _

theorem straightens_writer {op : WriterOp τ ε} (hop : op ≠ .suspend) (y : Writer) :
    Task.Straightens id (y.perform nested op) (y.perform nested' op) := by
  cases op with
  | write v => exact straightens_complete hn _
  | part lead v literal => exact straightens_complete hn _
  | cancel => exact (straightens_modify _).bind fun _ => straightens_pure _
  | check => exact (straightens_check _).bind fun _ => straightens_pure _
  | report e => exact (straightens_modify _).bind fun _ => straightens_pure _
  | suspend => exact absurd rfl hop
  | _ => exact straightens_pure _

theorem straightens_writing (p : Program (writing τ ε) α) (y : Writer) :
    Task.Straightens id (p.run (Writer.perform nested) y)
      ((SectionBody.steady p).run (Writer.perform nested') y) := by
  induction p generalizing y with
  | done a => exact straightens_pure _
  | perform op next ih =>
    cases op with
    -- where the first program stops, the second one goes on
    | suspend => exact ih () y
    | literal _ | write _ | beginAttribute _ _ _ _ | part _ _ _ | endAttribute | output | kind
    | cancel | check | report _ =>
      exact (straightens_writer hn (by simp) y).bind fun o => ih o.1 o.2

theorem straightens_runSection (x : Executed τ ε) (s : Section τ ε) (body : SectionBody τ ε) :
    Attempt.Straightens id (x.runSection nested s body)
      (x.steady.runSection nested' s.steady (SectionBody.steady body)) :=
  straightens_start (θ := id) (straightens_writing hn body _) fun _ => rfl

end

/-! Sections -/

theorem Section.isCalled_steady (s : Section τ ε) (name : String) :
    s.steady.isCalled name = s.isCalled name := rfl

namespace Executed

theorem isSectionDefined_steady (x : Executed τ ε) (name : String) :
    x.steady.isSectionDefined name = x.isSectionDefined name := by
  simp [isSectionDefined, steady, Function.comp_def, Section.isCalled_steady]

theorem find?_steady (x : Executed τ ε) (name : String) :
    x.steady.sections.find? (·.isCalled name) =
      (x.sections.find? (·.isCalled name)).map Section.steady := by
  simp [steady, List.find?_map, Function.comp_def, Section.isCalled_steady]

theorem spend_steady (x : Executed τ ε) (name : String) :
    x.steady.spend name = (x.spend name).steady := by
  have hspend : ∀ s : Section τ ε,
      (if s.steady.isCalled name then { s.steady with body? := none } else s.steady) =
      (if s.isCalled name then { s with body? := none } else s).steady := by
    intro s
    rw [Section.isCalled_steady]
    split <;> rfl
  simp [spend, steady, Function.comp_def, hspend]

end Executed

theorem Context.defineSection_steady (cx : Context τ ε) (name : String) (body : SectionBody τ ε) :
    cx.steady.defineSection name (SectionBody.steady body) =
      Prod.map id Context.steady (cx.defineSection name body) := by
  have hany : cx.steady.sections.any (·.isCalled name) = cx.sections.any (·.isCalled name) := by
    simp [steady, Function.comp_def, Section.isCalled_steady]
  unfold defineSection
  rw [hany]
  split
  · rfl
  · simp [steady, Section.steady]

theorem Context.setLayout_steady (cx : Context τ ε) (t : τ) :
    cx.steady.setLayout t = Prod.map id Context.steady (cx.setLayout t) := by
  unfold setLayout
  show (if cx.flushed then _ else _) = _
  split <;> rfl

theorem Context.renderBody_steady (cx : Context τ ε) : cx.steady.renderBody = cx.renderBody := by
  unfold renderBody
  cases hin : cx.input? <;> simp [steady, hin, Executed.steady]

theorem Context.isSectionDefined_steady (cx : Context τ ε) (name : String) :
    cx.steady.isSectionDefined name = cx.isSectionDefined name := by
  unfold isSectionDefined
  cases hin : cx.input? <;> simp [steady, hin, Executed.isSectionDefined_steady]

theorem straightens_flush (cx : Context τ ε) :
    Task.Straightens (Prod.map id Context.steady) cx.flush cx.steady.flush := by
  refine straightens_ite (straightens_pure _) (straightens_ite (straightens_pure _) ?_)
  exact (straightens_emit cx.writer.output).bind fun r => straightens_pure _

section
variable {nested nested' : Nested τ ε} (hn : Nested.Straightens nested nested')
include hn

theorem straightens_renderSection (x : Executed τ ε) (name : String) :
    Task.Straightens (Prod.map id Executed.steady) (x.renderSection nested name)
      (x.steady.renderSection nested' name) := by
  unfold Executed.renderSection
  rw [x.find?_steady name]
  cases x.sections.find? (·.isCalled name) with
  | none => exact straightens_pure _
  | some s =>
    cases hbody : s.body? with
    | none =>
      simp only [Option.map_some, Section.steady, hbody, Option.map_none]
      exact straightens_pure _
    | some body =>
      simp only [Option.map_some, Section.steady, hbody, x.spend_steady name]
      exact Task.Straightens.bind (straightens_runSection hn x s body) fun r => by
        cases r <;> exact straightens_pure _

/-! Bodies -/

theorem straightens_callSection (cx : Context τ ε) (name : String) (required : Bool) :
    Task.Straightens (Prod.map id Context.steady) (cx.renderSection nested name required)
      (cx.steady.renderSection nested' name required) := by
  refine (straightens_check cx.writer.token).bind fun r => ?_
  cases r with
  | error e => exact straightens_pure _
  | ok u =>
    cases hin : cx.input? with
    | none =>
      have hin' : cx.steady.input? = none := by simp [Context.steady, hin]
      simp only [id, hin']
      exact straightens_pure _
    | some x =>
      have hin' : cx.steady.input? = some x.steady := by simp [Context.steady, hin]
      simp only [id, hin']
      exact (straightens_renderSection hn x name).bind fun o => straightens_pure _

theorem straightens_context {op : BodyOp τ ε} (hsuspend : op ≠ .writer .suspend)
    (hdefine : ∀ name body, op ≠ .defineSection name body) (cx : Context τ ε) :
    Task.Straightens (Prod.map id Context.steady) (cx.perform nested op)
      (cx.steady.perform nested' op) := by
  cases op with
  | writer op =>
    have hop : op ≠ .suspend := fun h => hsuspend (congrArg BodyOp.writer h)
    exact (straightens_writer hn hop cx.writer).bind fun o => straightens_pure _
  | setLayout t =>
    show Task.Straightens _ (pure (cx.setLayout t)) (pure (cx.steady.setLayout t))
    rw [cx.setLayout_steady]
    exact straightens_pure _
  | defineSection name body => exact absurd rfl (hdefine name body)
  | renderBody =>
    show Task.Straightens _ (pure (cx.renderBody, cx)) (pure (cx.steady.renderBody, cx.steady))
    rw [cx.renderBody_steady]
    exact straightens_pure _
  | renderSection name required => exact straightens_callSection hn cx name required
  | isSectionDefined name =>
    show Task.Straightens _ (pure (cx.isSectionDefined name, cx))
      (pure (cx.steady.isSectionDefined name, cx.steady))
    rw [cx.isSectionDefined_steady]
    exact straightens_pure _
  | flush => exact straightens_flush cx

theorem straightens_composing (p : Program (composing τ ε) α) (cx : Context τ ε) :
    Task.Straightens (Prod.map id Context.steady) (p.run (Context.perform nested) cx)
      ((Body.steady p).run (Context.perform nested') cx.steady) := by
  induction p generalizing cx with
  | done a => exact straightens_pure _
  | perform op next ih =>
    cases op with
    | defineSection name body =>
      have hdefine : Task.Straightens (Prod.map id Context.steady)
          (pure (cx.defineSection name body) : Run τ ε _)
          (pure (cx.steady.defineSection name (SectionBody.steady body))) := by
        rw [cx.defineSection_steady]
        exact straightens_pure _
      exact hdefine.bind fun o => ih o.1 o.2
    | writer op =>
      cases op with
      | suspend => exact ih () cx
      | literal _ | write _ | beginAttribute _ _ _ _ | part _ _ _ | endAttribute | output | kind
      | cancel | check | report _ =>
        exact (straightens_context hn (by simp) (by simp) cx).bind fun o => ih o.1 o.2
    | setLayout _ | renderBody | renderSection _ _ | isSectionDefined _ | flush =>
      exact (straightens_context hn (by simp) (by simp) cx).bind fun o => ih o.1 o.2

/-! Templates and their layouts -/

theorem straightens_execute (lib : Library τ ε) (t : τ) (cx : Context τ ε) :
    Attempt.Straightens Executed.steady (execute lib nested t cx)
      (execute lib.steady nested' t cx.steady) :=
  straightens_start (straightens_composing hn (lib t).body cx) fun _ => rfl

theorem straightens_compose (lib : Library τ ε) (left : Nat) (x : Executed τ ε) :
    Attempt.Straightens id (compose lib nested left x)
      (compose lib.steady nested' left x.steady) := by
  induction left generalizing x with
  | zero =>
    cases hx : x.layout? with
    | none =>
      rw [compose_settled hx, compose_settled (x := x.steady) hx]
      exact straightens_pure _
    | some t =>
      rw [compose_exceeded hx, compose_exceeded (x := x.steady) hx]
      exact straightens_pure _
  | succ left ih =>
    cases hx : x.layout? with
    | none =>
      rw [compose_settled hx, compose_settled (x := x.steady) hx]
      exact straightens_pure _
    | some t =>
      rw [compose_around hx, compose_around (x := x.steady) hx]
      refine (straightens_look x.token).bind fun _ => ?_
      exact (straightens_execute hn lib t _).bind fun y => ih y

theorem straightens_renderIn (lib : Library τ ε) (t : τ) (cx : Context τ ε) :
    Attempt.Straightens id (renderIn lib nested t cx) (renderIn lib.steady nested' t cx.steady) :=
  (straightens_execute hn lib t cx).bind fun x => straightens_compose hn lib maxLayouts x

end

section
variable (lib : Library τ ε) (depth : Nat)

theorem straightens_renderNested :
    Nested.Straightens (renderNested lib depth) (renderNested lib.steady depth) := by
  induction depth with
  | zero => exact fun _ _ _ => rfl
  | succ depth ih => exact fun t token => straightens_renderIn ih lib t (.new (lib t).kind token)

theorem straightens_renderText (t : τ) (token : Token) :
    Attempt.Straightens id (renderText lib depth t token) (renderText lib.steady depth t token) :=
  (straightens_look token).bind fun _ =>
    straightens_renderIn (straightens_renderNested lib depth) lib t _

theorem straightens_renderToSink (t : τ) (token : Token) :
    Attempt.Straightens id (renderToSink lib depth t token)
      (renderToSink lib.steady depth t token) := by
  refine (straightens_look token).bind fun _ => ?_
  exact (straightens_renderIn (straightens_renderNested lib depth) lib t _).bind fun output =>
    .of_task (straightens_emit output)

end

end Templating.Render
