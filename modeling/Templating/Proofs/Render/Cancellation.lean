import Templating.Proofs.Render.Moment

/-! Cancellation. Once the token of a render is cancelled no body starts any more, whoever cancelled
it and when, and what asks for a body is refused with that token. A refusal that nothing but a body
made up names a token that is cancelled. -/
namespace Templating.Render
variable {τ ε α : Type}

/-! Refusals -/

def refusal? : Except RenderError α → Option Token
  | .ok _ => none
  | .error e => e.token?

def WriterOp.refusal? : (op : WriterOp τ ε) → op.Reply → Option Token
  | .write _ | .beginAttribute .. | .part .. | .endAttribute | .check => Templating.Render.refusal?
  | .literal _ | .output | .kind | .cancel | .suspend | .report _ => fun _ => none

def BodyOp.refusal? : (op : BodyOp τ ε) → op.Reply → Option Token
  | .writer op => op.refusal?
  | .setLayout _ | .defineSection .. | .flush | .renderBody | .renderSection
    .. | .isSectionDefined _ =>
    Templating.Render.refusal?

/-- The body that has just started ends by saying that a token is cancelled, though no operation of
it said so. -/
def MakesUp (lib : Library τ ε) (t' : Token) : Moment τ ε → Prop
  | (.body depth p cx, w) =>
    ∃ ds r cx' w', Traces (Context.perform (renderNested lib depth)) p cx w ds r cx' w' ∧
      refusal? r = some t' ∧ ∀ d ∈ ds, d.1.refusal? d.2 ≠ some t'
  | (.writing depth p y, w) =>
    ∃ ds r y' w', Traces (Writer.perform (renderNested lib depth)) p y w ds r y' w' ∧
      refusal? r = some t' ∧ ∀ d ∈ ds, d.1.refusal? d.2 ≠ some t'
  | _ => False

/-- Why a token is said to be cancelled: it is the token of the render and it is cancelled, or a
body made this up. -/
def Sourced (lib : Library τ ε) (token : Token) (m : Moment τ ε) (t' : Token)
    (w' : World τ ε) : Prop :=
  (t' = token ∧ w'.signals.isCancelled token = true) ∨
    ∃ e m₁ m₂, Reaches lib m m₁ ∧ Step lib (some e) m₁ m₂ ∧ MakesUp lib t' m₂

def Event.Starts : Event τ ε → Prop
  | .started _ | .sectionStarted _ => True
  | .reported _ => False

/-- What happens from a moment to the end of what is done there: every body that is started is
started by a step that the render comes to, and every refusal has its source. -/
structure Explains (lib : Library τ ε) (token : Token) (m : Moment τ ε) (refused? : Option Token)
    (w' : World τ ε) : Prop where
  grows : m.2.Extends w'
  starts : ∀ before e after, w'.log = before ++ e :: after →
    m.2.log.length ≤ before.length → e.Starts →
    ∃ m₁ m₂, Reaches lib m m₁ ∧ Step lib (some e) m₁ m₂ ∧ m₂.2.log = before ++ [e]
  refused : ∀ t', refused? = some t' → Sourced lib token m t' w'

section
variable {lib : Library τ ε} {token : Token} {m m₁ : Moment τ ε} {w w' : World τ ε}

theorem Sourced.after {t' : Token} (hr : Reaches lib m m₁) (h : Sourced lib token m₁ t' w)
    (hw : w.Extends w') :
    Sourced lib token m t' w' := by
  rcases h with ⟨rfl, hcancelled⟩ | ⟨e, m₂, m₃, hreach, hstep, hmade⟩
  · have hmem : t' ∈ w.signals.cancelled := by simpa [Signals.isCancelled] using hcancelled
    exact .inl ⟨rfl, by simpa [Signals.isCancelled] using hw.cancelled hmem⟩
  · exact .inr ⟨e, m₂, m₃, hr.trans hreach, hstep, hmade⟩

namespace Explains

theorem of_log_eq (hgrows : m.2.Extends w') (hlog : w'.log = m.2.log) :
    Explains lib token m none w' := by
  refine ⟨hgrows, fun before e after h hlen _ => ?_, fun t' h => by cases h⟩
  have hlength := congrArg List.length (hlog.symm.trans h)
  simp at hlength
  omega

theorem refl (m : Moment τ ε) : Explains lib token m none m.2 := of_log_eq (.refl _) rfl

theorem of_log_append {e : Event τ ε} (hgrows : m.2.Extends w') (hlog : w'.log = m.2.log ++ [e])
    (he : e.Starts → ∃ m₁ m₂, Reaches lib m m₁ ∧ Step lib (some e) m₁ m₂ ∧
      m₂.2.log = m.2.log ++ [e]) :
    Explains lib token m none w' := by
  refine ⟨hgrows, fun before e' after h hlen hstarts => ?_, fun t' h => by cases h⟩
  have h' := hlog.symm.trans h
  have hlength := congrArg List.length h'
  simp at hlength
  obtain ⟨rfl, hrest⟩ := List.append_inj h' (by omega)
  obtain ⟨rfl, -⟩ := List.cons.inj hrest
  exact he hstarts

theorem start {e : Event τ ε} (h : Step lib (some e) m m₁) (hlog : m₁.2.log = m.2.log ++ [e]) :
    Explains lib token m none m₁.2 :=
  of_log_append h.extends hlog fun _ => ⟨m, m₁, .refl, h, hlog⟩

theorem after {a? b? : Option Token} (h : Explains lib token m a? m₁.2) (hr : Reaches lib m m₁)
    (h₁ : Explains lib token m₁ b? w') : Explains lib token m b? w' := by
  refine ⟨h.grows.trans h₁.grows, fun before e after hlog hlen hstarts => ?_, fun t' ht => ?_⟩
  · by_cases hbefore : m₁.2.log.length ≤ before.length
    · obtain ⟨m₂, m₃, hreach, hstep, hm₃⟩ := h₁.starts before e after hlog hbefore hstarts
      exact ⟨m₂, m₃, hr.trans hreach, hstep, hm₃⟩
    · obtain ⟨rest, hrest⟩ := h₁.grows.log
      have hprefix : before ++ [e] <+: m₁.2.log := by
        have hwhole : before ++ [e] <+: w'.log := ⟨after, by simp [hlog]⟩
        refine List.prefix_of_prefix_length_le hwhole ⟨rest, hrest⟩ ?_
        simp
        omega
      obtain ⟨after', hafter'⟩ := hprefix
      exact h.starts before e after' (by simp [← hafter']) hlen hstarts
  · exact (h₁.refused t' ht).after hr (.refl _)

theorem check {r : Except RenderError Unit}
    (h : (World.check token : Attempt τ ε Unit).run.Gives m.2 r w') :
    Explains lib token m (refusal? r) w' := by
  have hquiet : Explains lib token m none w' := by
    refine of_log_eq (extends_of_gives_check h) ?_
    obtain ⟨-, rfl⟩ := gives_check.mp h
    exact World.arrive_log _
  refine ⟨hquiet.grows, hquiet.starts, fun t' ht => ?_⟩
  cases r with
  | ok u => cases ht
  | error e =>
    have hcancelled := cancelled_of_gives_check h
    obtain ⟨hc, rfl⟩ := gives_check.mp h
    simp only [Signals.check, hcancelled, if_true] at hc
    obtain rfl := Except.error.inj hc
    exact .inl ⟨(Option.some.inj ht).symm, hcancelled⟩

theorem quiet {a? : Option Token} (h : Explains lib token m a? w) (hw : w.Extends w')
    (hlog : w'.log = w.log) :
    Explains lib token m none w' :=
  ⟨h.grows.trans hw, fun before e after hb => h.starts before e after (hlog ▸ hb),
    fun t' ht => by cases ht⟩

theorem weaken {a? : Option Token} (h : Explains lib token m a? w') :
    Explains lib token m none w' :=
  ⟨h.grows, h.starts, fun t' ht => by cases ht⟩

theorem ended {refused? : Option Token} (h : Explains lib token m none w')
    (hrefused : ∀ t', refused? = some t' → Sourced lib token m t' w') :
    Explains lib token m refused? w' :=
  ⟨h.grows, h.starts, hrefused⟩

end Explains

theorem explains_traces {S : Signature} {σ : Type}
    {handle : (op : S.Op) → σ → Run τ ε (S.Reply op × σ)}
    {f : Program S α → σ → Stage τ ε} {I : σ → Prop} {g : (op : S.Op) → S.Reply op → Option Token}
    (hstep : ∀ {op next s r s' w w'}, (handle op s).Gives w (r, s') w' →
      Reaches lib (f (.perform op next) s, w) (f (next r) s', w'))
    (hop : ∀ {op next s r s' w w'}, I s → (handle op s).Gives w (r, s') w' →
      Explains lib token (f (.perform op next) s, w) (g op r) w')
    (hI : ∀ {op s r s' w w'}, I s → (handle op s).Gives w (r, s') w' → I s') {p : Program S α}
      {s s' : σ} {a : α}
    {ds : List S.Done} (h : Traces handle p s w ds a s' w') (hs : I s) :
    Explains lib token (f p s, w) none w' ∧
      ∀ d ∈ ds, ∀ t', g d.1 d.2 = some t' → Sourced lib token (f p s, w) t' w' := by
  induction h with
  | done a s w => exact ⟨.refl _, fun d hd => by cases hd⟩
  | @perform op next r s s₁ s' w w₁ w' ds a hperform _ ih =>
    have hreach : Reaches lib (f (.perform op next) s, w) (f (next r) s₁, w₁) := hstep hperform
    have hfirst : Explains lib token (f (.perform op next) s, w) (g op r) (f (next r) s₁, w₁).2 :=
      hop hs hperform
    obtain ⟨hrest, hlater⟩ := ih (hI hs hperform)
    refine ⟨hfirst.after hreach hrest, fun d hd t' ht => ?_⟩
    rcases List.mem_cons.mp hd with rfl | hd
    · exact (hfirst.refused t' ht).after .refl hrest.grows
    · exact (hlater d hd t' ht).after hreach (.refl _)

end

/-! Writers -/

def Written.Willing : Written τ → Prop
  | .done r _ => refusal? r = none
  | .nested .. => True

theorem willing_write (y : Writer) (v : Value τ) : (y.write v).Willing := by
  cases v with
  | display d =>
    show refusal? (if d.fails then .error .sink else .ok ()) = none
    split <;> rfl
  | template t => trivial
  | _ => rfl

theorem willing_followPart (y : Writer) (lead : String) (literal : Bool) (v : Value τ) :
    (y.followPart lead literal v).Willing := by
  have hwrite : ((y.literal lead).write v).Willing := willing_write _ v
  cases v with
  | null => rfl
  | text s =>
    simp only [Writer.followPart]
    split
    · rfl
    · exact hwrite
  | boolean b => exact hwrite
  | encoded e => exact hwrite
  | template t => exact hwrite
  | display d => exact hwrite

theorem willing_part (y : Writer) (lead : String) (v : Value τ) (literal : Bool) :
    (y.part lead v literal).Willing := by
  unfold Writer.part
  split
  · rfl
  split
  · rfl
  split
  · exact willing_followPart y lead literal v
  split
  · exact willing_followPart _ lead literal v
  split
  · rfl
  · rfl
  · exact willing_followPart _ lead literal _
  · exact willing_followPart _ lead literal _

section
variable {lib : Library τ ε} {token : Token} {depth : Nat}

/-- Whatever a template gives with the layouts around it is explained. -/
def Explained (lib : Library τ ε) (token : Token) (depth : Nat) : Prop :=
  ∀ {left t cx w r w'}, (Stage.template depth left t cx : Stage τ ε).Under token →
    (execute lib (renderNested lib depth) t cx >>=
      compose lib (renderNested lib depth) left).run.Gives w r w' →
    Explains lib token (.template depth left t cx, w) (refusal? r) w'

variable (hbelow : ∀ d, depth = d + 1 → Explained lib token d) {m : Moment τ ε} {w' : World τ ε}
include hbelow

theorem explains_complete {o : Written τ} (ho : o.Willing) (htoken : o.writer.token = token)
    (hdown : ∀ d t z, depth = d + 1 → o.nested? = some (t, z) →
      Reaches lib m (.template d maxLayouts t (.new (lib t).kind z.token), m.2))
    {r : Except RenderError Unit} {y : Writer}
    (h : (Writer.complete (renderNested lib depth) o).Gives m.2 (r, y) w') :
    Explains lib token m (refusal? r) w' := by
  cases o with
  | done r' z =>
    obtain ⟨hx, rfl⟩ := gives_pure.mp h
    obtain ⟨rfl, rfl⟩ := Prod.mk.inj hx
    have hnone : refusal? r' = none := ho
    rw [hnone]
    exact .refl m
  | nested t z =>
    obtain ⟨r', w₁, hnested, hrest⟩ := gives_bind.mp h
    have hsame : refusal? r = refusal? r' ∧ w' = w₁ := by
      cases r' with
      | ok s =>
        obtain ⟨hx, rfl⟩ := gives_pure.mp hrest
        obtain ⟨rfl, -⟩ := Prod.mk.inj hx
        exact ⟨rfl, rfl⟩
      | error e =>
        obtain ⟨hx, rfl⟩ := gives_pure.mp hrest
        obtain ⟨rfl, -⟩ := Prod.mk.inj hx
        exact ⟨rfl, rfl⟩
    obtain ⟨hsame, rfl⟩ := hsame
    rw [hsame]
    cases depth with
    | zero => cases hnested
    | succ d =>
      have hunder :
          (Stage.template d maxLayouts t (.new (lib t).kind z.token) : Stage τ ε).Under token :=
        ⟨htoken, fun x hx => by cases hx⟩
      let down : Moment τ ε := (.template d maxLayouts t (.new (lib t).kind z.token), m.2)
      have hstart : Explains lib token m none down.2 := .refl m
      exact hstart.after (hdown d t z rfl rfl) (hbelow d rfl hunder hnested)

theorem explains_writer {op : WriterOp τ ε} {y y' : Writer} {r : op.Reply}
    (htoken : y.token = token)
    (hdown : ∀ d t z, depth = d + 1 → op.nested? y = some (t, z) →
      Reaches lib m (.template d maxLayouts t (.new (lib t).kind z.token), m.2))
    (h : (y.perform (renderNested lib depth) op).Gives m.2 (r, y') w') :
    Explains lib token m (op.refusal? r) w' := by
  cases op with
  | write v =>
    exact explains_complete hbelow (willing_write y v)
      ((Writer.akin_write y v).token.trans htoken) hdown h
  | part lead v literal =>
    exact explains_complete hbelow (willing_part y lead v literal)
      ((Writer.akin_part y lead v literal).token.trans htoken)
      hdown h
  | literal | output | kind =>
    obtain ⟨-, rfl⟩ := gives_pure.mp h
    exact .refl m
  | beginAttribute name opening closing count =>
    obtain ⟨hx, rfl⟩ := gives_pure.mp h
    have hnone :
        Templating.Render.refusal? (y.beginAttribute name opening closing count).1 = none := by
      unfold Writer.beginAttribute
      split <;> rfl
    rw [hx] at hnone
    show Explains lib token m (Templating.Render.refusal? r) m.2
    rw [hnone]
    exact .refl m
  | endAttribute =>
    obtain ⟨hx, rfl⟩ := gives_pure.mp h
    have hnone : Templating.Render.refusal? y.endAttribute.1 = none := by
      unfold Writer.endAttribute
      split <;> rfl
    rw [hx] at hnone
    show Explains lib token m (Templating.Render.refusal? r) m.2
    rw [hnone]
    exact .refl m
  | cancel =>
    obtain ⟨_, w₁, hcancel, hp⟩ := gives_bind.mp h
    obtain ⟨-, rfl⟩ := gives_pure.mp hp
    have hgrows := closed_grows.cancel y.token hcancel
    obtain rfl := gives_modify.mp hcancel
    exact .of_log_eq hgrows rfl
  | check =>
    obtain ⟨r', w₁, hcheck, hp⟩ := gives_bind.mp h
    obtain ⟨hx, rfl⟩ := gives_pure.mp hp
    obtain ⟨rfl, -⟩ := Prod.mk.inj hx
    rw [htoken] at hcheck
    exact .check hcheck
  | suspend =>
    obtain ⟨_, w₁, hsuspend, hp⟩ := gives_bind.mp h
    obtain ⟨-, rfl⟩ := gives_pure.mp hp
    obtain rfl := gives_suspend.mp hsuspend
    exact .refl m
  | report e =>
    obtain ⟨_, w₁, hrecord, hp⟩ := gives_bind.mp h
    obtain ⟨-, rfl⟩ := gives_pure.mp hp
    have hgrows := closed_grows.record _ hrecord
    obtain rfl := gives_modify.mp hrecord
    exact .of_log_append hgrows rfl fun hstarts => hstarts.elim

/-! Sections -/

theorem explains_runSection {x : Executed τ ε} {s : Section τ ε} {body : SectionBody τ ε}
    {w : World τ ε} {r : Except RenderError String} (hx : x.token = token)
    (h : (x.runSection (renderNested lib depth) s body).run.Gives w r w') :
    Explains lib token (.asked depth x s body, w) (refusal? r) w' := by
  subst hx
  rcases gives_runSection.mp h with ⟨hcancelled, rfl, rfl⟩ | ⟨hfree, r', y, hbody, rfl⟩
  · exact .check (m := (.asked depth x s body, w)) (r := .error (.cancelled x.token))
      (gives_check.mpr ⟨by simp [Signals.check, hcancelled], rfl⟩)
  · have hstep : Step lib (some (.sectionStarted s.name)) (.asked depth x s body, w)
        (.writing depth body { kind := x.kind, token := x.token },
          w.arrive.recorded (.sectionStarted s.name)) :=
      .startSection (gives_check_free hfree)
    have hfirst : Explains lib x.token _ none _ := Explains.start hstep (by simp [World.recorded])
    obtain ⟨ds, htraces⟩ := gives_iff_traces.mp hbody
    obtain ⟨hrest, hops⟩ := explains_traces (f := .writing depth) (I := fun z => z.token = x.token)
      (g := WriterOp.refusal?) (fun hop => (Step.write hop).reaches)
      (fun hz hop => explains_writer hbelow hz (fun d t z hd hnest => by
        subst hd
        exact (Step.nestWriting hnest).reaches) hop)
      (fun hz hop => (Writer.akin_perform hop).token.trans hz) htraces rfl
    have hall := hfirst.after hstep.reaches hrest
    refine hall.ended fun t' ht => ?_
    have ht' : refusal? r' = some t' := by cases r' <;> exact ht
    by_cases hmade : ∃ d ∈ ds, d.1.refusal? d.2 = some t'
    · obtain ⟨d, hd, hdt⟩ := hmade
      exact (hops d hd t' hdt).after hstep.reaches (.refl _)
    · exact .inr ⟨_, _, _, .refl, hstep, ds, r', y, w', htraces, ht', fun d hd hdt =>
        hmade ⟨d, hd, hdt⟩⟩

/-! Bodies -/

theorem explains_renderSection {cx cx' : Context τ ε} {name : String} {required : Bool}
    {next : Except RenderError Encoded → Body τ ε} {w : World τ ε} {r : Except RenderError Encoded}
    (hcx : (Stage.body depth (.perform (.renderSection name required) next) cx).Under token)
    (h : (cx.renderSection (renderNested lib depth) name required).Gives w (r, cx') w') :
    Explains lib token (.body depth (.perform (.renderSection name required) next) cx, w)
      (refusal? r) w' := by
  obtain ⟨c, w₁, hcheck, h⟩ := gives_bind.mp h
  have hfirst : Explains lib token (.body depth (.perform (.renderSection name required) next) cx,
      w) (refusal? c) w₁ :=
    .check (hcx.1 ▸ hcheck)
  cases c with
  | error e =>
    obtain ⟨hx, rfl⟩ := gives_pure.mp h
    obtain ⟨rfl, -⟩ := Prod.mk.inj hx
    exact hfirst
  | ok u =>
    cases hin : cx.input? with
    | none =>
      simp only [hin] at h
      obtain ⟨hx, rfl⟩ := gives_pure.mp h
      obtain ⟨rfl, -⟩ := Prod.mk.inj hx
      exact hfirst
    | some x =>
      simp only [hin] at h
      obtain ⟨⟨r', x'⟩, w₂, hs, hp⟩ := gives_bind.mp h
      obtain ⟨hx, rfl⟩ := gives_pure.mp hp
      obtain ⟨rfl, -⟩ := Prod.mk.inj hx
      have hplain : ∀ o : Option String, refusal? (Context.answer name required o) = none := by
        intro o
        cases o with
        | some s => rfl
        | none => cases required <;> rfl
      unfold Executed.renderSection at hs
      split at hs
      · obtain ⟨hx, rfl⟩ := gives_pure.mp hs
        obtain ⟨rfl, -⟩ := Prod.mk.inj hx
        exact hfirst.ended fun t' ht => by cases (hplain none).symm.trans ht
      next s hfind =>
        split at hs
        · obtain ⟨hx, rfl⟩ := gives_pure.mp hs
          obtain ⟨rfl, -⟩ := Prod.mk.inj hx
          exact hfirst
        next body hbody =>
          obtain ⟨r'', w₃, hrun, hp⟩ := gives_bind.mp hs
          obtain ⟨hx, rfl⟩ := gives_pure.mp hp
          obtain ⟨rfl, -⟩ := Prod.mk.inj hx
          have hask : Step lib none
            (.body depth (.perform (.renderSection name required) next) cx, w)
              (.asked depth x s body, w₁) := .ask hcheck hin hfind hbody
          have hsection := explains_runSection hbelow (hcx.2 x hin) hrun
          have hasked : Explains lib token _ none (Stage.asked depth x s body, w₁).2 := hfirst
          have hall := hasked.after hask.reaches hsection
          refine hall.weaken.ended fun t' ht => ?_
          cases r'' with
          | ok out => cases ht
          | error e => exact hall.refused t' ht

theorem explains_context {op : BodyOp τ ε} {next : op.Reply → Body τ ε} {cx cx' : Context τ ε}
    {w : World τ ε} {r : op.Reply} (hcx : (Stage.body depth (.perform op next) cx).Under token)
    (h : (cx.perform (renderNested lib depth) op).Gives w (r, cx') w') :
    Explains lib token (.body depth (.perform op next) cx, w) (op.refusal? r) w' := by
  cases op with
  | writer op =>
    obtain ⟨⟨r', y⟩, w₁, hop, hp⟩ := gives_bind.mp h
    obtain ⟨hx, rfl⟩ := gives_pure.mp hp
    obtain ⟨rfl, -⟩ := Prod.mk.inj hx
    refine explains_writer hbelow (m := (.body depth (.perform (.writer op) next) cx, w)) hcx.1
      (fun d t z hd hnest => ?_) hop
    subst hd
    exact (Step.nest hnest).reaches
  | setLayout t =>
    obtain ⟨hx, rfl⟩ := gives_pure.mp h
    have hnone : Templating.Render.refusal? (cx.setLayout t).1 = none := by
      unfold Context.setLayout
      split <;> rfl
    rw [hx] at hnone
    exact (Explains.refl _).ended fun t' ht => by cases hnone.symm.trans ht
  | defineSection name body =>
    obtain ⟨hx, rfl⟩ := gives_pure.mp h
    have hnone : Templating.Render.refusal? (cx.defineSection name body).1 = none := by
      unfold Context.defineSection
      split <;> rfl
    rw [hx] at hnone
    exact (Explains.refl _).ended fun t' ht => by cases hnone.symm.trans ht
  | renderBody =>
    obtain ⟨hx, rfl⟩ := gives_pure.mp h
    have hnone : Templating.Render.refusal? cx.renderBody = none := by
      unfold Context.renderBody
      split <;> rfl
    obtain ⟨rfl, -⟩ := Prod.mk.inj hx
    exact (Explains.refl _).ended fun t' ht => by cases hnone.symm.trans ht
  | isSectionDefined name =>
    obtain ⟨hx, rfl⟩ := gives_pure.mp h
    have hnone : Templating.Render.refusal? (cx.isSectionDefined name) = none := by
      unfold Context.isSectionDefined
      split <;> rfl
    obtain ⟨rfl, -⟩ := Prod.mk.inj hx
    exact (Explains.refl _).ended fun t' ht => by cases hnone.symm.trans ht
  | renderSection name required => exact explains_renderSection hbelow hcx h
  | flush =>
    rcases flush_cases h with ⟨-, rfl, -, rfl⟩ | ⟨-, -, rfl, -, rfl⟩ | ⟨-, -, hemit, -⟩
    · exact .refl _
    · exact .refl _
    · have hgrows := grows_emit _ hemit
      rcases gives_emit.mp hemit with ⟨sink, -, rfl, rfl⟩ | ⟨-, rfl, rfl⟩
      · exact .of_log_eq hgrows rfl
      · exact .refl _

/-! Templates, with the layouts around them -/

theorem explains_execute {left : Nat} {t : τ} {cx : Context τ ε} {w : World τ ε}
    {r : Except RenderError (Executed τ ε)} (hcx : (Stage.template depth left t cx).Under token)
    (h : (execute lib (renderNested lib depth) t cx).run.Gives w r w') :
    Explains lib token (.template depth left t cx, w) (refusal? r) w' := by
  obtain ⟨rfl, hinput⟩ := hcx
  rcases gives_execute.mp h with ⟨hcancelled, rfl, rfl⟩ | ⟨hfree, r', cx', hbody, rfl⟩
  · exact .check (m := (.template depth left t cx, w)) (r := .error (.cancelled cx.writer.token))
      (gives_check.mpr ⟨by simp [Signals.check, hcancelled], rfl⟩)
  · have hstep : Step lib (some (.started t)) (.template depth left t cx, w)
        (.body depth (lib t).body cx, w.arrive.recorded (.started t)) :=
          .start (gives_check_free hfree)
    have hfirst : Explains lib cx.writer.token _ none _ :=
      Explains.start hstep (by simp [World.recorded])
    obtain ⟨ds, htraces⟩ := gives_iff_traces.mp hbody
    obtain ⟨hrest, hops⟩ := explains_traces (f := .body depth)
      (I := fun y => y.writer.token = cx.writer.token ∧ ∀ x, y.input? = some x →
        x.token = cx.writer.token)
      (g := BodyOp.refusal?) (fun hop => (Step.perform hop).reaches) (fun hy hop =>
        explains_context hbelow hy hop)
      (fun {op y r y' v v'} hy hop => by
        have hnext : Step lib none (.body depth (.perform op fun _ => .done (.ok ())) y, v)
            (.body depth (.done (.ok ())) y', v') :=
          .perform hop
        exact hnext.under hy) htraces ⟨rfl, hinput⟩
    have hall := hfirst.after hstep.reaches hrest
    refine hall.ended fun t' ht => ?_
    have ht' : refusal? r' = some t' := by cases r' <;> exact ht
    by_cases hmade : ∃ d ∈ ds, d.1.refusal? d.2 = some t'
    · obtain ⟨d, hd, hdt⟩ := hmade
      exact (hops d hd t' hdt).after hstep.reaches (.refl _)
    · exact .inr ⟨_, _, _, .refl, hstep, ds, r', cx', w', htraces, ht', fun d hd hdt =>
        hmade ⟨d, hd, hdt⟩⟩

theorem explains_around {left : Nat} {t : τ} {cx : Context τ ε} {w : World τ ε}
    {r : Except RenderError String}
    (hlayouts : ∀ {x w r w'}, x.token = token →
      (compose lib (renderNested lib depth) left x).run.Gives w r w' →
      Explains lib token (.layouts depth left x, w) (refusal? r) w')
    (hcx : (Stage.template depth left t cx).Under token)
    (h : (execute lib (renderNested lib depth) t cx >>=
      compose lib (renderNested lib depth) left).run.Gives w r w') :
    Explains lib token (.template depth left t cx, w) (refusal? r) w' := by
  rcases gives_attempt_bind.mp h with ⟨e, hexecute, rfl⟩ | ⟨x, w₁, hexecute, hcompose⟩
  · have hfirst := explains_execute hbelow hcx hexecute
    exact hfirst
  · have hleave : Step lib none (.template depth left t cx, w) (.layouts depth left x, w₁) :=
      .leave hexecute
    have hfirst :
        Explains lib token (.template depth left t cx, w) _ (Stage.layouts depth left x, w₁).2 :=
      explains_execute hbelow hcx hexecute
    exact hfirst.after hleave.reaches (hlayouts (hleave.under hcx) hcompose)

theorem explains_compose {left : Nat} {x : Executed τ ε} {w : World τ ε}
    {r : Except RenderError String} (hx : x.token = token)
    (h : (compose lib (renderNested lib depth) left x).run.Gives w r w') :
    Explains lib token (.layouts depth left x, w) (refusal? r) w' := by
  -- the layouts that are left become fewer with each
  induction left generalizing x w r w' with
  | zero =>
    unfold compose at h
    split at h
    · obtain ⟨rfl, rfl⟩ := gives_pure.mp h
      exact .refl _
    · obtain ⟨rfl, rfl⟩ := gives_pure.mp h
      exact .refl _
  | succ left ih =>
    unfold compose at h
    split at h
    · obtain ⟨rfl, rfl⟩ := gives_pure.mp h
      exact .refl _
    next t ht =>
      subst hx
      rcases gives_check_bind.mp h with ⟨hcancelled, rfl, rfl⟩ | ⟨hfree, hrest⟩
      · exact .check (m := (.layouts depth (left + 1) x, w)) (r := .error (.cancelled x.token))
          (gives_check.mpr ⟨by simp [Signals.check, hcancelled], rfl⟩)
      · let cx : Context τ ε :=
          { Context.new (lib t).kind x.token with input? := some { x with layout? := none } }
        have hhop :
            Step lib none (.layouts depth (left + 1) x, w) (.template depth left t cx, w.arrive) :=
          .hop ht (gives_check_free hfree)
        have hfirst : Explains lib x.token (.layouts depth (left + 1) x, w) none
            (Stage.template depth left t cx, w.arrive).2 :=
          (Explains.check (gives_check_free hfree)).weaken
        exact hfirst.after hhop.reaches
          (explains_around hbelow (fun hy hcompose => ih hy hcompose) (hhop.under rfl) hrest)

end

theorem explained (lib : Library τ ε) (token : Token) (depth : Nat) :
    Explained lib token depth := by
  have hstep : ∀ {depth : Nat}, (∀ d, depth = d + 1 → Explained lib token d) →
      Explained lib token depth := by
    intro depth hbelow left t cx w r w' hcx h
    exact explains_around hbelow (fun hx hcompose => explains_compose hbelow hx hcompose) hcx h
  induction depth with
  | zero => exact hstep fun d hd => by cases hd
  | succ depth ih => exact hstep fun d hd => Nat.succ.inj hd ▸ ih

/-! What is denied -/

def WriterOp.Denied (lib : Library τ ε) (token : Token) (depth : Nat) (op : WriterOp τ ε)
    (y : Writer) (v : World τ ε) : Prop :=
  ∀ t z, op.nested? y = some (t, z) →
    ∃ r, (y.perform (renderNested lib (depth + 1)) op).Gives v (r, z) v.arrive ∧
      op.refusal? r = some token

/-- What asks for a body is told that the token is cancelled, or that there are too many layouts. -/
def Stage.Denied (lib : Library τ ε) (token : Token) (v : World τ ε) : Stage τ ε → Prop
  | .template depth _ t cx =>
    (execute lib (renderNested lib depth) t cx).run.Gives v (.error (.cancelled token)) v.arrive
  | .layouts depth 0 x => x.layout?.isSome →
    (compose lib (renderNested lib depth) 0 x).run.Gives v
      (.error (.layoutDepthExceeded maxLayouts)) v
  | .layouts depth (left + 1) x => x.layout?.isSome →
    (compose lib (renderNested lib depth) (left + 1) x).run.Gives v (.error (.cancelled token))
      v.arrive
  | .asked depth x s p =>
    (x.runSection (renderNested lib depth) s p).run.Gives v (.error (.cancelled token)) v.arrive
  | .body depth (.perform (.renderSection name required) _) cx =>
    (cx.renderSection (renderNested lib depth) name required).Gives v (.error (.cancelled token),
      cx) v.arrive
  | .body (depth + 1) (.perform (.writer op) _) cx => op.Denied lib token depth cx.writer v
  | .writing (depth + 1) (.perform op _) y => op.Denied lib token depth y v
  | _ => True

section
variable {lib : Library τ ε} {token : Token} {v : World τ ε}
  (hcancelled : v.arrive.signals.isCancelled token = true)
include hcancelled

theorem gives_check_cancelled :
    (World.check token : Attempt τ ε Unit).run.Gives v (.error (.cancelled token)) v.arrive :=
  gives_check.mpr ⟨by simp [Signals.check, hcancelled], rfl⟩

theorem WriterOp.denied {depth : Nat} {op : WriterOp τ ε} {y : Writer} (hy : y.token = token) :
    op.Denied lib token depth y v := by
  intro t z hnested
  have hz : z.token = token := (akin_of_nested? hnested).token.trans hy
  have hrender : (renderNested lib (depth + 1) t z.token).run.Gives v (.error (.cancelled token))
      v.arrive := by
    rw [hz]
    exact gives_attempt_bind.mpr (.inl ⟨_, gives_execute.mpr (.inl ⟨hcancelled, rfl, rfl⟩), rfl⟩)
  have hcomplete : ∀ {o : Written τ}, o.nested? = some (t, z) →
      (Writer.complete (renderNested lib (depth + 1)) o).Gives v (.error (.cancelled token), z)
        v.arrive := by
    intro o ho
    cases o with
    | done r x => cases ho
    | nested t' x =>
      obtain ⟨rfl, rfl⟩ := Prod.mk.inj (Option.some.inj ho)
      exact hrender.bind (gives_pure.mpr ⟨rfl, rfl⟩)
  cases op with
  | write val => exact ⟨_, hcomplete hnested, rfl⟩
  | part lead val literal => exact ⟨_, hcomplete hnested, rfl⟩
  | _ => cases hnested

theorem Stage.Under.denied {σ : Stage τ ε} (hσ : σ.Under token) : σ.Denied lib token v := by
  match σ, hσ with
  | .template depth left t cx, hσ =>
    obtain ⟨rfl, -⟩ := hσ
    exact gives_execute.mpr (.inl ⟨hcancelled, rfl, rfl⟩)
  | .layouts depth 0 x, _ =>
    intro hlayout
    obtain ⟨t, ht⟩ := Option.isSome_iff_exists.mp hlayout
    unfold compose
    rw [ht]
    exact gives_pure.mpr ⟨rfl, rfl⟩
  | .layouts depth (left + 1) x, hσ =>
    intro hlayout
    obtain ⟨t, ht⟩ := Option.isSome_iff_exists.mp hlayout
    obtain rfl : x.token = token := hσ
    unfold compose
    rw [ht]
    exact gives_check_bind.mpr (.inl ⟨hcancelled, rfl, rfl⟩)
  | .asked depth x s p, hσ =>
    obtain rfl : x.token = token := hσ
    exact gives_runSection.mpr (.inl ⟨hcancelled, rfl, rfl⟩)
  | .body depth (.perform (.renderSection name required) next) cx, hσ =>
    obtain ⟨rfl, -⟩ := hσ
    exact (gives_check_cancelled hcancelled).bind (gives_pure.mpr ⟨rfl, rfl⟩)
  | .body (depth + 1) (.perform (.writer op) next) cx, hσ => exact WriterOp.denied hcancelled hσ.1
  | .writing (depth + 1) (.perform op next) y, hσ => exact WriterOp.denied hcancelled hσ
  | .body depth (.done r) cx, _ => exact trivial
  | .body 0 (.perform (.writer op) next) cx, _ => exact trivial
  | .body depth (.perform (.setLayout t) next) cx, _ => exact trivial
  | .body depth (.perform (.defineSection name p) next) cx, _ => exact trivial
  | .body depth (.perform .renderBody next) cx, _ => exact trivial
  | .body depth (.perform (.isSectionDefined name) next) cx, _ => exact trivial
  | .body depth (.perform .flush next) cx, _ => exact trivial
  | .writing 0 p y, _ => exact trivial
  | .writing (depth + 1) (.done r) y, _ => exact trivial

end

/-! The whole render -/

def Stage.Answers (lib : Library τ ε) (token : Token) (v : World τ ε) : Stage τ ε → Prop
  | .body depth (.perform op next) cx =>
    ∀ r cx' v', (cx.perform (renderNested lib depth) op).Gives v (r, cx') v' →
    ∀ t', op.refusal? r = some t' → Sourced lib token (.body depth (.perform op next) cx, v) t' v'
  | .writing depth (.perform op next) y =>
    ∀ r y' v', (y.perform (renderNested lib depth) op).Gives v (r, y') v' →
    ∀ t', op.refusal? r = some t' → Sourced lib token (.writing depth (.perform op next) y, v) t' v'
  | _ => True

def Ends (x : Attempt τ ε α) (w : World τ ε) (r : Except RenderError α) (w' : World τ ε) : Prop :=
  await x w = some (r, w') ∨ immediately x w = some (r, w')

section
variable {lib : Library τ ε} {depth : Nat} {t : τ} {token : Token} {direct : Bool}
  {w w' : World τ ε}

theorem Ends.gives {x : Attempt τ ε α} {r : Except RenderError α} (h : Ends x w r w') :
    r = .error .suspendedInRuntime ∨ x.run.Gives w r w' := by
  rcases h with h | h
  · exact .inr h
  · unfold immediately drive at h
    split at h
    next hready =>
      obtain ⟨rfl, rfl⟩ := Prod.mk.inj (Option.some.inj h)
      refine .inr ?_
      show (x w).finish = _
      rw [hready]
      rfl
    · obtain ⟨rfl, -⟩ := Prod.mk.inj (Option.some.inj h)
      exact .inl rfl
    · cases h

theorem entry_under : (entry lib depth t token direct w).1.Under token :=
  ⟨rfl, fun x hx => by cases hx⟩

theorem Stage.Under.answers {σ : Stage τ ε} (hσ : σ.Under token) : σ.Answers lib token w := by
  match σ, hσ with
  | .body depth (.perform op next) cx, hσ =>
    exact fun r cx' v' hop => (explains_context (fun d _ => explained lib token d) hσ hop).refused
  | .writing depth (.perform op next) y, hσ =>
    intro r y' v' hop
    refine (explains_writer (m := (.writing depth (.perform op next) y, w)) (fun d _ =>
      explained lib token d) hσ
      (fun d t z hd hnest => ?_) hop).refused
    subst hd
    exact (Step.nestWriting hnest).reaches
  | .template depth left t cx, _ => exact trivial
  | .layouts depth left x, _ => exact trivial
  | .asked depth x s p, _ => exact trivial
  | .body depth (.done r) cx, _ => exact trivial
  | .writing depth (.done r) y, _ => exact trivial

theorem Step.start_free {m m' : Moment τ ε} {e : Event τ ε} (h : Step lib (some e) m m')
    (hm : m.1.Under token) :
    m'.2.signals.isCancelled token = false := by
  cases h with
  | start hcheck =>
    have hfree := free_of_gives_check hcheck
    rwa [hm.1] at hfree
  | @startSection depth x s p w w' hcheck =>
    have htoken : x.token = token := hm
    have hfree := free_of_gives_check hcheck
    rwa [htoken] at hfree

theorem explains_cancelled (h : w.arrive.signals.isCancelled token = true) :
    Explains lib token (entry lib depth t token direct w) (some token) w.arrive := by
  have hrest : Explains lib token (entry lib depth t token direct w) none w.arrive := .refl _
  exact hrest.ended fun t' ht => .inl ⟨(Option.some.inj ht).symm, h⟩

theorem explains_renderText {r : Except RenderError String}
    (h : (renderText lib depth t token).run.Gives w r w') :
    Explains lib token (entry lib depth t token false w) (refusal? r) w' := by
  rcases gives_check_bind.mp h with ⟨hcancelled, rfl, rfl⟩ | ⟨-, hrender⟩
  · exact explains_cancelled hcancelled
  · have hunder : (entry lib depth t token false w).1.Under token := entry_under
    exact explained lib token depth hunder hrender

theorem explains_renderToSink {r : Except RenderError Unit}
    (h : (renderToSink lib depth t token).run.Gives w r w') :
    Explains lib token (entry lib depth t token true w) (refusal? r) w' := by
  have hunder : (entry lib depth t token true w).1.Under token := entry_under
  have hrender : ∀ {r : Except RenderError String} {v : World τ ε},
      (renderIn lib (renderNested lib depth) t { Context.new (lib t).kind token with direct :=
        true }).run.Gives w.arrive r v →
        Explains lib token (entry lib depth t token true w) (refusal? r) v :=
    fun h => explained lib token depth hunder h
  rcases gives_check_bind.mp h with ⟨hcancelled, rfl, rfl⟩ | ⟨-, hrest⟩
  · exact explains_cancelled hcancelled
  · rcases gives_attempt_bind.mp hrest with ⟨e, herror, rfl⟩ | ⟨out, v, hout, hemit⟩
    · exact hrender herror
    · have hgrows := grows_emit out hemit
      rcases gives_emit.mp hemit with ⟨sink, -, rfl, rfl⟩ | ⟨-, rfl, rfl⟩
      · exact (hrender hout).quiet hgrows rfl
      · exact (hrender hout).quiet hgrows rfl

/-- Every body of a render starts after a look at the token of the render that finds it free. From
the moment at which the token is cancelled, by anyone, no body starts, and whatever asks for one is
told so, or that there are too many layouts. The bodies that a render starts until it ends are all
among the steps that it comes to, and whenever a token is said to be cancelled this is the token of
the render and it is cancelled, unless a body made it up. A token that is cancelled before leaves
nothing to be done. -/
theorem cancellation_observed (lib : Library τ ε) (depth : Nat) (t : τ) (token : Token)
    (w : World τ ε) :
    (w.signals.isCancelled token = true →
      renderText lib depth t token w = .ready (.error (.cancelled token)) w.arrive ∧
      renderToSink lib depth t token w = .ready (.error (.cancelled token)) w.arrive ∧
      w.arrive.log = w.log ∧ w.arrive.sink = w.sink) ∧
    (∀ direct m, Reaches lib (entry lib depth t token direct w) m →
      w.Extends m.2 ∧
      (∀ e m', Step lib (some e) m m' → m'.2.signals.isCancelled token = false) ∧
      (m.2.signals.isCancelled token = true → ∀ m' e m'', Reaches lib m m' →
        ¬ Step lib (some e) m' m'') ∧
      (m.2.arrive.signals.isCancelled token = true → m.1.Denied lib token m.2) ∧
      m.1.Answers lib token m.2) ∧
    (∀ r w', Ends (renderText lib depth t token) w r w' →
      r = .error .suspendedInRuntime ∨
        Explains lib token (entry lib depth t token false w) (refusal? r) w') ∧
    ∀ r w', Ends (renderToSink lib depth t token) w r w' →
      r = .error .suspendedInRuntime ∨
        Explains lib token (entry lib depth t token true w) (refusal? r) w' := by
  refine ⟨fun hcancelled => ?before, fun direct m hm => ?during, fun r w' h =>
    ?text, fun r w' h => ?sink⟩
  case before =>
    have harrive := cancelled_arrive hcancelled
    exact ⟨check_bind_cancelled harrive, check_bind_cancelled harrive, w.arrive_log, w.arrive_sink⟩
  case during =>
    have hentry : (entry lib depth t token direct w).1.Under token := entry_under
    have hunder := hm.under hentry
    refine ⟨w.extends_arrive.trans hm.extends, fun e m' hstep => hstep.start_free hunder,
      fun hcancelled m' e m'' hm' hstep => ?_, fun h => hunder.denied h, hunder.answers⟩
    -- the token would have to be free again
    have hfree := hstep.start_free (hm'.under hunder)
    have hnot := (hm'.extends.trans hstep.extends).free hfree
    rw [hcancelled] at hnot
    cases hnot
  case text => exact h.gives.imp id explains_renderText
  case sink => exact h.gives.imp id explains_renderToSink

/-- A page that cancels its render, writes a template all the same and carries
on when that fails. -/
def stubborn : Library Bool String
  | false =>
    ⟨.html, .perform (.writer .cancel) fun _ => .perform (.writer (.write (.template true))) fun
      | .ok () => .done (.ok ())
      | .error e => .perform (.writer (.report e.message)) fun _ => .done (.ok ())⟩
  | true => ⟨.html, .done (.ok ())⟩

example : (await (renderText stubborn 1 false ⟨0⟩) {}).map (fun (r, w) => (r, w.log)) =
    some (.ok "", [.started false, .reported "The operation was canceled"]) := rfl

end

end Templating.Render
