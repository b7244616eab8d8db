import Templating.Proofs.Render.Layouts
import Templating.Proofs.Render.Mirror

/-! A render to the sink beside the same render to a text: step by step, the text has what the sink
was given and what is still held back. -/
namespace Templating.Render
variable {τ ε : Type}

/-- The body never looks at what it has written, and it ends where a layout is refused. -/
def Program.Straight : Body τ ε → Prop
  | .done _ => True
  | .perform (.writer .output) _ => False
  | .perform (.setLayout _) next =>
    (∀ e, next (.error e) = .done (.error e)) ∧ ∀ r, Straight (next r)
  | .perform _ next => ∀ r, Straight (next r)

theorem Program.Straight.next {op : BodyOp τ ε} {next : op.Reply → Body τ ε}
    (h : Program.Straight (.perform op next)) (r : op.Reply) : (next r).Straight := by
  cases op with
  | writer op =>
    cases op with
    | output => exact h.elim
    | _ => exact h r
  | setLayout t => exact h.2 r
  | _ => exact h r

theorem Program.Straight.ne_output {op : BodyOp τ ε} {next : op.Reply → Body τ ε}
    (h : Program.Straight (.perform op next)) :
    op ≠ .writer .output := by
  rintro rfl
  exact h

namespace Sink

def append (s : Sink) (chunks : List String) : Sink := { s with chunks := s.chunks ++ chunks }

def since (start s : Sink) : String := String.join (s.chunks.drop start.chunks.length)

@[simp] theorem append_nil (s : Sink) : s.append [] = s := by simp [append]

@[simp] theorem append_append (s : Sink) (cs ds : List String) :
    (s.append cs).append ds = s.append (cs ++ ds) := by
  simp [append]

@[simp] theorem since_append (s : Sink) (cs : List String) :
    s.since (s.append cs) = String.join cs := by
  simp [since, append]

@[simp] theorem since_self (s : Sink) : s.since s = "" := by simp [since, String.join]

end Sink

def Context.holding (text : String) (cx : Context τ ε) : Context τ ε :=
  { cx with writer := cx.writer.holding text, direct := false, flushed := false }

/-- Where the render to a text is when the one to the sink has come this far. -/
def beside {ρ : Type} (start : Sink) :
    (ρ × Context τ ε) × World τ ε → (ρ × Context τ ε) × World τ ε :=
  fun ((r, cx), w) => ((r, cx.holding (start.since w.sink)), w.withSink start)

/-- A body has the sink. It has given something away only if it has no layout. -/
structure Direct (start : Sink) (cx : Context τ ε) (w : World τ ε) : Prop where
  direct : cx.direct = true
  layout : cx.flushed = true → cx.layout? = none
  sink : ∃ chunks, w.sink = start.append chunks
  unsent : cx.flushed = false → w.sink = start

section
variable {nested : Nested τ ε} (hn : ∀ t token, (nested t token).run.Sinkless) {start : Sink}
  {cx : Context τ ε} {w : World τ ε}

theorem Direct.of_sink {cx' : Context τ ε} {w' : World τ ε} (h : Direct start cx w)
    (hd : cx'.direct = cx.direct)
    (hl : cx'.layout? = cx.layout?) (hf : cx'.flushed = cx.flushed) (hs : w'.sink = w.sink) :
    Direct start cx' w' :=
  ⟨hd.trans h.direct, fun hx => hl.trans (h.layout (hf ▸ hx)), hs ▸ h.sink, fun hx =>
    hs.trans (h.unsent (hf ▸ hx))⟩

/-! One operation -/

/-- The operation does the same in both renders, and keeps the invariant. -/
def Together (start : Sink) (nested : Nested τ ε) (cx : Context τ ε) (w : World τ ε)
    (op : BodyOp τ ε) : Prop :=
  Task.Mirrors (beside start) (cx.perform nested op) w
      ((cx.holding (start.since w.sink)).perform nested op) (w.withSink start) ∧
    ∀ r cx' w', (cx.perform nested op).Gives w (r, cx') w' → Direct start cx' w'

theorem together_pure {op : BodyOp τ ε} {r : op.Reply} {c : Context τ ε}
    (hop : cx.perform nested op = pure (r, c))
    (hop' : (cx.holding (start.since w.sink)).perform nested op =
      pure (r, c.holding (start.since w.sink)))
    (h : Direct start c w) : Together start nested cx w op := by
  refine ⟨?_, fun r₁ cx₁ w₁ h₁ => ?_⟩
  · rw [hop, hop']
    exact .of_pure rfl
  · rw [hop] at h₁
    obtain ⟨hx, rfl⟩ := gives_pure.mp h₁
    obtain ⟨-, rfl⟩ := Prod.mk.inj hx
    exact h

include hn in
theorem together_writer (h : Direct start cx w) {op : WriterOp τ ε} (hop : op ≠ .output) :
    Together start nested cx w (.writer op) := by
  have hsink : ∀ {r y w'}, (cx.writer.perform nested op).Gives w (r, y) w' → w'.sink = w.sink :=
    fun hx => (closed_sinkless.writer hn op cx.writer w).1 _ _ hx
  refine ⟨(Writer.mirrors_perform hn hop w start).bind fun a w' ha =>
    .of_pure ?_, fun r cx' w' hcx => ?_⟩
  · obtain ⟨r, y⟩ := a
    have hs : w'.sink = w.sink := hsink ha
    simp only [beside, Context.holding, hs]
  · obtain ⟨⟨r', y⟩, w₁, hx, hp⟩ := gives_bind.mp hcx
    obtain ⟨he, rfl⟩ := gives_pure.mp hp
    obtain ⟨-, rfl⟩ := Prod.mk.inj he
    exact h.of_sink rfl rfl rfl (hsink hx)

include hn in
theorem together_renderSection (h : Direct start cx w) (name : String) (required : Bool) :
    Together start nested cx w (.renderSection name required) := by
  have hcheck : ∀ {r w'}, (World.check cx.writer.token : Attempt τ ε Unit).run.Gives w r w' →
      w'.sink = w.sink :=
    fun hx => (closed_sinkless.check _ w).1 _ _ hx
  have hsection : ∀ {x : Executed τ ε} {r w₁ w₂}, (x.renderSection nested name).Gives w₁ r w₂ →
      w₂.sink = w₁.sink :=
    fun hx => (closed_sinkless.renderSection hn _ name _).1 _ _ hx
  refine ⟨((closed_sinkless.check cx.writer.token w).2 start).bind fun r w₁ hr =>
    ?_, fun r cx' w' hcx => ?_⟩
  · have hs : w₁.sink = w.sink := hcheck hr
    have hin : (cx.holding (start.since w.sink)).input? = cx.input? := rfl
    cases r with
    | error e => exact .of_pure (by simp only [beside, hs])
    | ok u =>
      simp only [hin]
      cases cx.input? with
      | none => exact .of_pure (by simp only [beside, hs])
      | some x =>
        refine ((closed_sinkless.renderSection hn x name w₁).2 start).bind fun a w₂ ha =>
          .of_pure ?_
        obtain ⟨r', x'⟩ := a
        simp only [beside, Context.holding, hsection ha, hs]
  · obtain ⟨c, w₁, hc, hrest⟩ := gives_bind.mp hcx
    have hs : w₁.sink = w.sink := hcheck hc
    split at hrest
    · obtain ⟨he, rfl⟩ := gives_pure.mp hrest
      obtain ⟨-, rfl⟩ := Prod.mk.inj he
      exact h.of_sink rfl rfl rfl hs
    split at hrest
    · obtain ⟨he, rfl⟩ := gives_pure.mp hrest
      obtain ⟨-, rfl⟩ := Prod.mk.inj he
      exact h.of_sink rfl rfl rfl hs
    · obtain ⟨_, w₂, hx, hp⟩ := gives_bind.mp hrest
      obtain ⟨he, rfl⟩ := gives_pure.mp hp
      obtain ⟨-, rfl⟩ := Prod.mk.inj he
      exact h.of_sink rfl rfl rfl ((hsection hx).trans hs)

theorem together_flush (hstart : start.capacity? = none) (h : Direct start cx w) :
    Together start nested cx w .flush := by
  cases hl : cx.layout? with
  | some t =>
    refine together_pure (r := .error .flushWithLayout) (c := cx) ?_ ?_ h
    · simp [Context.perform, Context.flush, hl]
    · simp [Context.perform, Context.flush, Context.holding, hl]
  | none =>
    obtain ⟨chunks, hw⟩ := h.sink
    let out := cx.writer.output
    let cx₁ : Context τ ε := { cx with writer := { cx.writer with output := "" }, flushed := true }
    let w₁ := w.withSink (start.append (chunks ++ [out]))
    have hroom : w.sink.write? out = some (start.append (chunks ++ [out])) := by
      simp [hw, Sink.write?, Sink.append, hstart]
    have hemit : (World.emit out : Attempt τ ε Unit).run.Gives w (.ok ()) w₁ :=
      gives_emit.mpr (.inl ⟨_, hroom, rfl, rfl⟩)
    have hflush : (cx.perform nested .flush).Gives w (.ok (), cx₁) w₁ := by
      show cx.flush.Gives w (.ok (), cx₁) w₁
      have hdirect := h.direct
      simp only [Context.flush, hl, hdirect]
      exact hemit.bind (gives_pure.mpr
        ⟨by simp [cx₁, Except.isOk, Except.toBool, hl, hdirect], rfl⟩)
    have hkept : (cx.holding (start.since w.sink)).perform nested .flush =
        pure (.ok (), cx.holding (start.since w.sink)) := by
      simp [Context.perform, Context.flush, Context.holding, hl]
    refine ⟨.of_gives hflush ?_, fun r cx' w' hcx => ?_⟩
    · have hsame : cx₁.holding (start.since w₁.sink) = cx.holding (start.since w.sink) := by
        simp [Context.holding, Writer.holding, cx₁, w₁, out, hw, String.join_append]
      rw [hkept]
      refine gives_pure.mpr ⟨?_, rfl⟩
      simp only [beside]
      rw [hsame]
    · obtain ⟨hx, rfl⟩ := Prod.mk.inj (Option.some.inj (hflush.symm.trans hcx))
      obtain ⟨-, rfl⟩ := Prod.mk.inj hx
      exact ⟨h.direct, fun _ => hl, ⟨_, rfl⟩, fun hf => by cases hf⟩

include hn in
/-- Every operation of a straight body does the same in both renders, unless it sets a layout after
something was handed over. -/
theorem Direct.perform (h : Direct start cx w) (hstart : start.capacity? = none) {op : BodyOp τ ε}
    (hout : op ≠ .writer .output)
    (hset : ∀ t, op = .setLayout t → cx.flushed = false) : Together start nested cx w op := by
  cases op with
  | writer op => exact together_writer hn h (fun ho => hout (by rw [ho]))
  | setLayout t =>
    have hf := hset t rfl
    refine together_pure (r := .ok ()) (c := { cx with layout? := some t }) ?_ ?_ ?_
    · simp [Context.perform, Context.setLayout, hf]
    · simp [Context.perform, Context.setLayout, Context.holding]
    · exact ⟨h.direct, fun hx => absurd (hf.symm.trans hx) (by simp), h.sink, h.unsent⟩
  | defineSection name body =>
    by_cases hs : cx.sections.any (·.isCalled name)
    · refine together_pure (r := .error (.sectionRedefined name)) (c := cx) ?_ ?_ h
      · simp [Context.perform, Context.defineSection, hs]
      · simp [Context.perform, Context.defineSection, Context.holding, hs]
    · refine together_pure (r := .ok ())
        (c := { cx with sections := cx.sections ++ [⟨name, some body⟩] }) ?_ ?_
        (h.of_sink rfl rfl rfl rfl)
      · simp [Context.perform, Context.defineSection, hs]
      · simp [Context.perform, Context.defineSection, Context.holding, hs]
  | renderBody => exact together_pure rfl rfl h
  | isSectionDefined name => exact together_pure rfl rfl h
  | renderSection name required => exact together_renderSection hn h name required
  | flush => exact together_flush hstart h

/-! A whole body -/

/-- The body has come to set a layout after something was handed over. -/
def Refused (nested : Nested τ ε) (p : Body τ ε) (cx : Context τ ε) (w : World τ ε) : Prop :=
  ∃ ds t next cx' w',
    Performs (Context.perform nested) p cx w ds (.perform (.setLayout t) next) cx' w' ∧
    cx'.flushed = true ∧
      (p.run (Context.perform nested) cx).Gives w (.error .layoutAfterFlush, cx') w'

theorem setLayout_refused {cx : Context τ ε} (hf : cx.flushed = true) (t : τ) (w : World τ ε) :
    (cx.perform nested (.setLayout t)).Gives w (.error .layoutAfterFlush, cx) w :=
  gives_pure.mpr ⟨by simp [Context.setLayout, hf], rfl⟩

include hn in
theorem Direct.run (h : Direct start cx w) (hstart : start.capacity? = none) {p : Body τ ε}
    (hp : p.Straight) :
    Refused nested p cx w ∨
      Task.Mirrors (beside start) (p.run (Context.perform nested) cx) w
          (p.run (Context.perform nested) (cx.holding (start.since w.sink))) (w.withSink start) ∧
        ∀ r cx' w', (p.run (Context.perform nested) cx).Gives w (r, cx') w' →
          Direct start cx' w' := by
  induction p generalizing cx w with
  | done a =>
    refine .inr ⟨.of_pure rfl, fun r cx' w' hcx => ?_⟩
    obtain ⟨hx, rfl⟩ := gives_pure.mp hcx
    obtain ⟨-, rfl⟩ := Prod.mk.inj hx
    exact h
  | perform op next ih =>
    by_cases hset : ∃ t, op = .setLayout t ∧ cx.flushed = true
    case neg =>
      have hset : ∀ t, op = .setLayout t → cx.flushed = false := fun t ht => by
        simpa using fun hf => hset ⟨t, ht, hf⟩
      obtain ⟨hboth, hkeep⟩ := h.perform hn hstart hp.ne_output hset
      cases hfinish : (cx.perform nested op w).finish with
      | none =>
        -- the operation does not end, and so the body does not either
        have hnever : ∀ a w', ¬ (cx.perform nested op).Gives w a w' := fun a w' ha => by
          have ha' : (cx.perform nested op w).finish = some (a, w') := ha
          rw [hfinish] at ha'
          cases ha'
        refine .inr ⟨hboth.bind fun a w' ha => absurd ha (hnever a w'), fun r cx' w' hcx => ?_⟩
        obtain ⟨a, w₁, ha, -⟩ := gives_bind.mp hcx
        exact absurd ha (hnever a w₁)
      | some x =>
        obtain ⟨⟨r, cx₁⟩, w₁⟩ := x
        have hop : (cx.perform nested op).Gives w (r, cx₁) w₁ := hfinish
        have honly : ∀ {a w'}, (cx.perform nested op).Gives w a w' → a = (r, cx₁) ∧ w' = w₁ :=
          fun ha => by
          simpa [eq_comm] using Prod.mk.inj (Option.some.inj (hop.symm.trans ha))
        rcases ih r (hkeep _ _ _ hop) (hp.next r) with
          ⟨ds, t, next', cx', w', hperforms, hf, hgives⟩ | ⟨hrest, hlast⟩
        · exact .inl ⟨_, t, next', cx', w', .perform hop hperforms, hf, hop.bind hgives⟩
        · refine .inr ⟨hboth.bind fun a w' ha => ?_, fun r' cx' w' hcx => ?_⟩
          · obtain ⟨rfl, rfl⟩ := honly ha
            exact hrest
          · obtain ⟨a, w', ha, hb⟩ := gives_bind.mp hcx
            obtain ⟨rfl, rfl⟩ := honly ha
            exact hlast _ _ _ hb
    case pos =>
      obtain ⟨t, rfl, hf⟩ := hset
      have hop : (cx.perform nested (.setLayout t)).Gives w (.error .layoutAfterFlush, cx) w :=
        setLayout_refused hf t w
      have hnext : next (.error .layoutAfterFlush) = .done (.error .layoutAfterFlush) := hp.1 _
      refine .inl ⟨[], t, next, cx, w, .none _ _ _, hf, hop.bind ?_⟩
      rw [hnext]
      exact gives_pure.mpr ⟨rfl, rfl⟩

include hn in
theorem Direct.moment (hstart : start.capacity? = none) {p p' : Body τ ε} {cx' : Context τ ε}
    {w' : World τ ε} {ds : List (composing τ ε).Done}
      (hperforms : Performs (Context.perform nested) p cx w ds p' cx' w')
    (h : Direct start cx w) (hp : p.Straight) :
    p' = .done (.error .layoutAfterFlush) ∨ Direct start cx' w' ∧
      Performs (Context.perform nested) p (cx.holding (start.since w.sink)) (w.withSink start) ds p'
        (cx'.holding (start.since w'.sink)) (w'.withSink start) := by
  induction hperforms with
  | none p cx w => exact .inr ⟨h, .none _ _ _⟩
  | @perform op next r cx cx₁ cx' w w₁ w' ds p' hop hrest ih =>
    by_cases hset : ∃ t, op = .setLayout t ∧ cx.flushed = true
    case neg =>
      have hset : ∀ t, op = .setLayout t → cx.flushed = false := fun t ht => by
        simpa using fun hf => hset ⟨t, ht, hf⟩
      obtain ⟨hboth, hkeep⟩ := h.perform hn hstart hp.ne_output hset
      rcases ih (hkeep _ _ _ hop) (hp.next r) with hend | ⟨hdirect, hrest'⟩
      · exact .inl hend
      · exact .inr ⟨hdirect, .perform (hboth.gives hop) hrest'⟩
    case pos =>
      obtain ⟨t, rfl, hf⟩ := hset
      obtain ⟨hx, -⟩ := Prod.mk.inj (Option.some.inj ((setLayout_refused hf t w).symm.trans hop))
      obtain ⟨rfl, -⟩ := Prod.mk.inj hx
      have hnext : next (.error .layoutAfterFlush) = .done (.error .layoutAfterFlush) := hp.1 _
      rw [hnext] at hrest
      cases hrest
      exact .inl rfl

/-! What was handed over, and layouts -/

/-- What the operations so far say of a context that has the sink. -/
structure Handing (ds : List (composing τ ε).Done) (cx : Context τ ε) : Prop where
  direct : cx.direct = true
  layout : cx.layout? = pending ds
  flushed : cx.flushed = true ↔ ⟨.flush, .ok ()⟩ ∈ ds
  free : cx.flushed = true → cx.layout? = none

theorem Handing.perform {ds : List (composing τ ε).Done} (h : Handing ds cx) {op : BodyOp τ ε}
    {r : op.Reply}
    {cx' : Context τ ε} {w' : World τ ε} (hop : (cx.perform nested op).Gives w (r, cx') w') :
    Handing (ds ++ [⟨op, r⟩]) cx' := by
  have hdirect := direct_perform hop
  have hlayout : cx'.layout? = (pending [⟨op, r⟩]).or cx.layout? :=
    (Context.follows_perform hop).layout
  have hpending : cx'.layout? = pending (ds ++ [⟨op, r⟩]) := by
    rw [hlayout, h.layout]
    simp [pending, List.getLast?_append]
  refine ⟨hdirect.1.trans h.direct, hpending, ?flushed, ?free⟩
  case flushed =>
    by_cases hflush : op = .flush
    · subst hflush
      rcases flush_cases hop with ⟨-, rfl, rfl, -⟩ | ⟨-, hno, -⟩ | ⟨-, -, -, rfl⟩
      · simp [h.flushed]
      · rw [h.direct] at hno
        cases hno
      · have hok : r.isOk = true ↔ .ok () = r := by cases r <;> simp [Except.isOk, Except.toBool]
        simp [h.flushed, hok]
    · have hne : (⟨.flush, .ok ()⟩ : (composing τ ε).Done) ≠ ⟨op, r⟩ :=
        fun he => hflush (congrArg Sigma.fst he).symm
      simp [hdirect.2 hflush, h.flushed, hne]
  case free =>
    intro hf
    cases op with
    | setLayout t =>
      have hcx : cx.setLayout t = (r, cx') := (gives_pure.mp hop).1
      unfold Context.setLayout at hcx
      split at hcx
      next hflushed =>
        obtain ⟨-, rfl⟩ := Prod.mk.inj hcx
        exact h.free hflushed
      next hnot =>
        obtain ⟨-, rfl⟩ := Prod.mk.inj hcx
        exact absurd hf hnot
    | flush =>
      rcases flush_cases hop with ⟨-, -, rfl, -⟩ | ⟨hl, -, -, rfl, -⟩ | ⟨hl, -, -, rfl⟩
      · exact h.free hf
      · exact hl
      · exact hl
    | _ =>
      rw [hdirect.2 (by simp)] at hf
      rw [hlayout, h.free hf]
      rfl

theorem Handing.performs {p p' : Body τ ε} {cx' : Context τ ε} {w' : World τ ε}
    {sofar ds : List (composing τ ε).Done}
    (h : Handing sofar cx) (hperforms : Performs (Context.perform nested) p cx w ds p' cx' w') :
    Handing (sofar ++ ds) cx' :=
  hperforms.invariant (I := fun ds cx _ => Handing ds cx) (fun h hop => h.perform hop) h

/-! The page and its layouts -/

def Executed.holding (text : String) (x : Executed τ ε) : Executed τ ε :=
  { x with output := text ++ x.output }

theorem World.withSink_of_eq {w : World τ ε} (hw : w.sink = start) : w.withSink start = w := by
  rw [← hw]
  rfl

def page (lib : Library τ ε) (t : τ) (token : Token) : Context τ ε :=
  { Context.new (lib t).kind token with direct := true }

variable {lib : Library τ ε} {t : τ} {token : Token}

theorem holding_page : (page lib t token).holding "" = Context.new (lib t).kind token := by
  simp [page, Context.holding, Writer.holding, Context.new]

theorem direct_page (hw : w.sink = start) : Direct start (page lib t token) w :=
  ⟨rfl, fun _ => rfl, ⟨[], by simpa using hw⟩, fun _ => hw⟩

theorem handing_page : Handing [] (page lib t token) :=
  ⟨rfl, rfl, by simp [page, Context.new], fun _ => rfl⟩

theorem check_mirrors (hw : w.sink = start) : Task.Mirrors (through start fun a _ => a)
    (World.check token : Attempt τ ε Unit).run w (World.check token : Attempt τ ε Unit).run w := by
  have h := (closed_sinkless.check (τ := τ) (ε := ε) token).mirrors w start
  rwa [World.withSink_of_eq hw] at h

theorem mirrors_execute (hw : w.sink = start)
    (hrun : w.arrive.signals.isCancelled token = false →
      Task.Mirrors (beside start) ((lib t).body.run (Context.perform nested) (page lib t token))
        (w.arrive.recorded (.started t))
          ((lib t).body.run (Context.perform nested) (Context.new (lib t).kind token))
        (w.arrive.recorded (.started t))) :
    Task.Mirrors (through start fun x v => x.holding (start.since v.sink))
      (execute lib nested t (page lib t token)).run w
      (execute lib nested t (Context.new (lib t).kind token)).run w := by
  refine Task.Mirrors.attempt_bind (check_mirrors hw) fun u w₁ hcheck => ?_
  have hfree := free_of_gives_check hcheck
  obtain ⟨-, rfl⟩ := gives_check.mp hcheck
  have hw₁ : w.arrive.sink = start := w.arrive_sink.trans hw
  rw [World.withSink_of_eq hw₁]
  refine Task.Mirrors.attempt_bind (φ := fun a _ => a) (Task.Mirrors.lift ?_) fun _ w₂ hrecord => ?_
  · have h := (closed_sinkless.record (τ := τ) (.started t) w.arrive).2 start
    rwa [World.withSink_of_eq hw₁] at h
  · obtain ⟨_, hrecord, -⟩ := gives_lift.mp hrecord
    obtain rfl : w₂ = w.arrive.recorded (.started t) := gives_modify.mp hrecord
    rw [World.withSink_of_eq (w := w.arrive.recorded (.started t)) hw₁]
    refine Task.Mirrors.attempt_bind (φ := fun a v => (a.1, a.2.holding (start.since v.sink)))
      (Task.Mirrors.lift (hrun hfree)) fun a v _ => ?_
    obtain ⟨r, cx'⟩ := a
    refine .of_pure ?_
    cases r <;> rfl

include hn in
theorem mirrors_compose {x : Executed τ ε} (hx : x.layout?.isSome → w.sink = start) (left : Nat) :
    Task.Mirrors (through start fun out v => start.since v.sink ++ out)
      (compose lib nested left x).run w
      (compose lib nested left (x.holding (start.since w.sink))).run (w.withSink start) := by
  cases hl : x.layout? with
  | none =>
    rw [compose_settled hl, compose_settled (x := x.holding _) hl]
    exact .of_pure rfl
  | some t =>
    have hw : w.sink = start := hx (by rw [hl]; rfl)
    have hsame : x.holding (start.since w.sink) = x := by simp [Executed.holding, hw]
    rw [hsame]
    have hcompose := closed_sinkless.compose hn lib left x
    refine (hcompose.mirrors w start).congr fun r v hgives => ?_
    have hv : v.sink = start := ((hcompose w).1 r v hgives).trans hw
    cases r <;> simp [through, Except.map, hv]

/-- The sink only ever gets more. -/
def Task.Appends {α : Type} (t : Run τ ε α) : Prop :=
  ∀ ⦃w a w'⦄, t.Gives w a w' → ∃ chunks, w'.sink = w.sink.append chunks

theorem appends_emit (chunk : String) : (World.emit chunk : Attempt τ ε Unit).run.Appends := by
  intro w r w' h
  rcases gives_emit.mp h with ⟨sink, hs, -, rfl⟩ | ⟨-, -, rfl⟩
  · unfold Sink.write? at hs
    split at hs
    · cases hs
    · exact ⟨[chunk], (Option.some.inj hs).symm⟩
  · exact ⟨[], by simp⟩

theorem Task.Sinkless.appends {α : Type} {t : Run τ ε α} (ht : t.Sinkless) : t.Appends :=
  fun w a w' h => ⟨[], by simpa using (ht w).1 a w' h⟩

theorem closed_appends : Closed (τ := τ) (ε := ε) Task.Appends := by
  refine ⟨?pure, ?bind, ?check, ?record, ?cancel, ?suspend, ?endless⟩
  case bind =>
    intro α β t f ht hf w b w'' h
    obtain ⟨a, w', ha, hb⟩ := gives_bind.mp h
    obtain ⟨cs, hcs⟩ := ht ha
    obtain ⟨ds, hds⟩ := hf a w w' ha hb
    exact ⟨cs ++ ds, by rw [hds, hcs, Sink.append_append]⟩
  case pure => exact fun a => (closed_sinkless.pure a).appends
  case check => exact fun token => (closed_sinkless.check token).appends
  case record => exact fun e => (closed_sinkless.record e).appends
  case cancel => exact fun token => (closed_sinkless.cancel token).appends
  case suspend => exact closed_sinkless.suspend.appends
  case endless => exact fun {α} => (closed_sinkless.endless (α := α)).appends

theorem appends_renderToSink (lib : Library τ ε) (depth : Nat) (t : τ) (token : Token) :
    (renderToSink lib depth t token).run.Appends := by
  have hnested : ∀ t token, (renderNested lib depth t token).run.Appends :=
    closed_appends.renderNested lib depth
  refine closed_appends.attempt_bind (closed_appends.check token) fun _ => ?_
  refine closed_appends.attempt_bind (closed_appends.renderIn hnested lib t _ fun _ => appends_emit)
    fun output => ?_
  exact appends_emit output

theorem mirrors_emit (hstart : start.capacity? = none) {out : String}
    (hw : ∃ chunks, w.sink = start.append chunks) :
    Task.Mirrors (through start fun _ v => start.since v.sink)
      (World.emit out : Attempt τ ε Unit).run w
      (pure (start.since w.sink ++ out) : Attempt τ ε String).run (w.withSink start) := by
  obtain ⟨chunks, hw⟩ := hw
  have hroom : w.sink.write? out = some (start.append (chunks ++ [out])) := by
    simp [hw, Sink.write?, Sink.append, hstart]
  refine .of_gives (gives_emit.mpr (.inl ⟨_, hroom, rfl, rfl⟩)) (gives_pure.mpr ⟨?_, rfl⟩)
  simp [through, Except.map, hw, String.join_append]

theorem finish_bind_pure {α : Type} (x : Attempt τ ε α) (v : World τ ε) :
    ((x >>= pure).run v).finish = (x.run v).finish := by
  have hb : (x >>= pure).run v = (x.run v).bind (ExceptT.bindCont pure) := rfl
  rw [hb, Poll.finish_bind]
  cases (x.run v).finish with
  | none => rfl
  | some r =>
    obtain ⟨r, u⟩ := r
    cases r <;> rfl

end

/-! The whole render -/

/-- The page comes to setting a layout in this world, and has handed something over before. -/
def LateLayout (lib : Library τ ε) (depth : Nat) (t : τ) (token : Token) (w v : World τ ε) : Prop :=
  ∃ ds t' next cx, Performs (Context.perform (renderNested lib depth)) (lib t).body
    (page lib t token) (w.entered t) ds
      (.perform (.setLayout t') next) cx v ∧ ⟨.flush, .ok ()⟩ ∈ ds

section
variable {lib : Library τ ε} {depth : Nat} {t : τ} {token : Token} {w : World τ ε}

theorem sinkless_renderNested (lib : Library τ ε) (depth : Nat) (t : τ) (token : Token) :
    (renderNested lib depth t token).run.Sinkless :=
  closed_sinkless.renderNested lib depth t token

theorem Refused.renderToSink
    (h : Refused (renderNested lib depth) (lib t).body (page lib t token) (w.entered t))
    (hfree : w.arrive.signals.isCancelled token = false)
    (hfree' : w.arrive.arrive.signals.isCancelled token = false) :
    ∃ v, LateLayout lib depth t token w v ∧
      (renderToSink lib depth t token).run.Gives w (.error .layoutAfterFlush) v := by
  obtain ⟨ds, t', next, cx, v, hperforms, hflushed, hbody⟩ := h
  have hhanding : Handing ds cx := by simpa using handing_page.performs hperforms
  have hexecute : (execute lib (renderNested lib depth) t (page lib t token)).run.Gives w.arrive
      (.error .layoutAfterFlush) v :=
    gives_execute.mpr (.inr ⟨hfree', _, _, hbody, rfl⟩)
  have hrender : (renderIn lib (renderNested lib depth) t (page lib t token)).run.Gives w.arrive
      (.error .layoutAfterFlush) v :=
    gives_attempt_bind.mpr (.inl ⟨_, hexecute, rfl⟩)
  exact ⟨v, ⟨ds, t', next, cx, hperforms, hhanding.flushed.mp hflushed⟩,
    gives_check_bind.mpr (.inr ⟨hfree, gives_attempt_bind.mpr (.inl ⟨_, hrender, rfl⟩)⟩)⟩

theorem mirrors_renderIn (hstart : w.sink.capacity? = none) (hbody : (lib t).body.Straight)
    (hnot : w.arrive.signals.isCancelled token = false →
      ¬ Refused (renderNested lib depth) (lib t).body (page lib t token)
        (w.arrive.recorded (.started t))) :
    Task.Mirrors (through w.sink fun out v => w.sink.since v.sink ++ out)
      (renderIn lib (renderNested lib depth) t (page lib t token)).run w
      (renderIn lib (renderNested lib depth) t (Context.new (lib t).kind token)).run w := by
  have hn := sinkless_renderNested lib depth
  have hsame : w.arrive.sink = w.sink := w.arrive_sink
  have hrun : w.arrive.signals.isCancelled token = false →
      Task.Mirrors (beside w.sink)
        ((lib t).body.run (Context.perform (renderNested lib depth)) (page lib t token))
          (w.arrive.recorded (.started t))
          ((lib t).body.run (Context.perform (renderNested lib depth))
            (Context.new (lib t).kind token))
          (w.arrive.recorded (.started t)) ∧
        ∀ r cx v, ((lib t).body.run (Context.perform (renderNested lib depth))
          (page lib t token)).Gives
          (w.arrive.recorded (.started t)) (r, cx) v → Direct w.sink cx v := by
    intro hfree
    have hdirect : Direct w.sink (page lib t token) (w.arrive.recorded (.started t)) :=
      direct_page hsame
    have hsince : w.sink.since (w.arrive.recorded (.started t)).sink = "" := by
      simp [World.recorded]
    rcases hdirect.run hn hstart hbody with hrefused | hmirrors
    · exact absurd hrefused (hnot hfree)
    · rwa [hsince, holding_page, World.withSink_of_eq (w := w.arrive.recorded (.started t)) hsame]
        at hmirrors
  refine (mirrors_execute rfl fun hfree => (hrun hfree).1).attempt_bind fun x v hx => ?_
  refine mirrors_compose hn (fun hlayout => ?_) maxLayouts
  -- a body that leaves a layout has handed nothing over
  rcases gives_execute.mp hx with ⟨-, hr, -⟩ | ⟨hfree, r, cx, hgives, hr⟩
  · cases hr
  · have hdirect := (hrun hfree).2 r cx v hgives
    cases r with
    | error e => cases hr
    | ok u =>
      obtain rfl := Except.ok.inj hr
      refine hdirect.unsent ?_
      by_cases hf : cx.flushed = true
      · have hnone : cx.executed.layout? = none := hdirect.layout hf
        rw [hnone] at hlayout
        cases hlayout
      · simpa using hf

theorem mirrors_renderToSink (hstart : w.sink.capacity? = none) (hbody : (lib t).body.Straight)
    (hnot : w.arrive.arrive.signals.isCancelled token = false →
      ¬ Refused (renderNested lib depth) (lib t).body (page lib t token) (w.entered t)) :
    Task.Mirrors (through w.sink fun _ v => w.sink.since v.sink)
      (renderToSink lib depth t token).run w
      (renderText lib depth t token).run w := by
  have happends : ∀ {out v}, (renderIn lib (renderNested lib depth) t (page lib t token)).run.Gives
    w.arrive (.ok out) v →
      ∃ chunks, v.sink = w.sink.append chunks := by
    intro out v h
    have h :=
      closed_appends.renderIn (fun t token => closed_appends.renderNested lib depth t token) lib t _
        (fun _ => appends_emit) h
    rwa [World.arrive_sink] at h
  refine (check_mirrors rfl).attempt_bind fun u v hcheck => ?_
  obtain ⟨-, rfl⟩ := gives_check.mp hcheck
  have hsame : w.arrive.sink = w.sink := w.arrive_sink
  rw [World.withSink_of_eq hsame]
  have hrender :=
    @mirrors_renderIn _ _ lib depth t token w.arrive (by rw [hsame]; exact hstart) hbody hnot
  rw [hsame] at hrender
  have htail := hrender.attempt_bind (g := World.emit) (k := pure) fun out v hout =>
    mirrors_emit hstart (happends hout)
  unfold Task.Mirrors at htail ⊢
  rwa [finish_bind_pure] at htail

/-- Rendering to a sink that takes everything and rendering to a text do the same, and the sink is
given the text, unless the page is refused a layout that it sets after it has handed something over.
Until the body of the page ends the sink has a part of what the body has written, and once it has
any the page has no layout. -/
theorem renderToSink_mirrors (hbody : (lib t).body.Straight) (hsink : w.sink.capacity? = none) :
    ((∃ v, LateLayout lib depth t token w v ∧
      (renderToSink lib depth t token).run.Gives w (.error .layoutAfterFlush) v) ∨
      Task.Mirrors (through w.sink fun _ v => w.sink.since v.sink)
        (renderToSink lib depth t token).run w
        (renderText lib depth t token).run w) ∧
    (∀ r v, (renderToSink lib depth t token).run.Gives w r v →
      ∃ chunks, v.sink = w.sink.append chunks) ∧
    (∀ ds op next cx v,
      Performs (Context.perform (renderNested lib depth)) (lib t).body (page lib t token)
        (w.entered t) ds
          (.perform op next) cx v →
        ∃ chunks kept, v.sink = w.sink.append chunks ∧
          Performs (Context.perform (renderNested lib depth)) (lib t).body
            (Context.new (lib t).kind token) (w.entered t) ds
            (.perform op next) kept (v.withSink w.sink) ∧
          kept.writer.output = String.join chunks ++ cx.writer.output) ∧
    ∀ ds p cx v,
      Performs (Context.perform (renderNested lib depth)) (lib t).body (page lib t token)
        (w.entered t) ds p cx v →
        ⟨.flush, .ok ()⟩ ∈ ds → pending ds = none ∧ cx.executed.layout? = none := by
  have hn := sinkless_renderNested lib depth
  have hentered : (w.entered t).sink = w.sink := by simp [World.entered]
  refine ⟨?outcome, fun r v h => appends_renderToSink lib depth t token h, ?moments, ?layouts⟩
  case outcome =>
    by_cases hlate : w.arrive.signals.isCancelled token = false ∧
      w.arrive.arrive.signals.isCancelled token = false ∧
        Refused (renderNested lib depth) (lib t).body (page lib t token) (w.entered t)
    · exact .inl (hlate.2.2.renderToSink hlate.1 hlate.2.1)
    · refine .inr (mirrors_renderToSink hsink hbody fun hfree hrefused =>
        hlate ⟨?_, hfree, hrefused⟩)
      exact w.arrive.extends_arrive.free hfree
  case moments =>
    intro ds op next cx v hperforms
    rcases Direct.moment hn hsink hperforms (direct_page hentered) hbody with
      hend | ⟨hdirect, hkept⟩
    · cases hend
    · obtain ⟨chunks, hchunks⟩ := hdirect.sink
      rw [hentered, Sink.since_self, holding_page, World.withSink_of_eq hentered] at hkept
      exact ⟨chunks, _, hchunks, hkept, by simp [Context.holding, Writer.holding, hchunks]⟩
  case layouts =>
    intro ds p cx v hperforms hflush
    have hhanding : Handing ds cx := by simpa using handing_page.performs hperforms
    have hnone := hhanding.free (hhanding.flushed.mpr hflush)
    exact ⟨hhanding.layout ▸ hnone, hnone⟩

/-- A page that hands over what it has written before and after a template that it writes. -/
def streamed : Library Bool Unit
  | false =>
    ⟨.html, .perform (.writer (.literal "head")) fun _ => .perform .flush fun _ =>
      .perform (.writer (.write (.template true))) fun
      | .ok () => .perform .flush fun _ => .done (.ok ())
      | .error e => .done (.error e)⟩
  | true => ⟨.html, .perform (.writer (.literal "tail")) fun _ => .done (.ok ())⟩

theorem renderToSink_mirrors_streamed :
    (streamed false).body.Straight ∧ ({} : World Bool Unit).sink.capacity? = none ∧
      ∃ v, (renderToSink streamed 1 false ⟨0⟩).run.Gives {} (.ok ()) v ∧
        v.sink.chunks = ["head", "tail", ""] ∧
        (renderText streamed 1 false ⟨0⟩).run.Gives {} (.ok "headtail") (v.withSink {}) := by
  have hbody : (streamed false).body.Straight := fun _ _ r => match r with
    | .ok () => fun _ => trivial
    | .error _ => trivial
  refine ⟨hbody, rfl, _, rfl, rfl, ?_⟩
  rcases (@renderToSink_mirrors _ _ streamed 1 false ⟨0⟩ {} hbody rfl).1 with
    ⟨v, -, hlate⟩ | hmirrors
  · cases hlate
  · exact hmirrors.gives rfl

end

end Templating.Render
