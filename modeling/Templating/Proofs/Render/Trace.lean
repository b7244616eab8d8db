import Templating.Proofs.Render.Writer
import Templating.Proofs.Render.World

/-! What a program has done, operation by operation, and what a body has made of
its context by that. -/
namespace Templating.Render
variable {τ ε α : Type}

/-- An operation that was performed, with the answer. -/
abbrev Signature.Done (S : Signature) := (op : S.Op) × S.Reply op

section
variable {S : Signature} {σ : Type} {handle : (op : S.Op) → σ → Run τ ε (S.Reply op × σ)}

/-- The program, started in a state and a world, performs these operations and
ends with that result. -/
inductive Traces (handle : (op : S.Op) → σ → Run τ ε (S.Reply op × σ)) :
    Program S α → σ → World τ ε → List S.Done → α → σ → World τ ε → Prop
  | done (a : α) (s : σ) (w : World τ ε) : Traces handle (.done a) s w [] a s w
  | perform {op : S.Op} {next r s s₁ s' w w₁ w' ds a} (hop : (handle op s).Gives w (r, s₁) w₁)
      (h : Traces handle (next r) s₁ w₁ ds a s' w') :
      Traces handle (.perform op next) s w (⟨op, r⟩ :: ds) a s' w'

theorem gives_iff_traces {p : Program S α} {s s' : σ} {a : α} {w w' : World τ ε} :
    (p.run handle s).Gives w (a, s') w' ↔ ∃ ds, Traces handle p s w ds a s' w' := by
  constructor
  · intro h
    induction p generalizing s w with
    | done b =>
      obtain ⟨hb, rfl⟩ := gives_pure.mp h
      obtain ⟨rfl, rfl⟩ : b = a ∧ s = s' := by simpa using hb
      exact ⟨[], .done b s w⟩
    | perform op next ih =>
      obtain ⟨⟨r, s₁⟩, w₁, hop, hnext⟩ := gives_bind.mp h
      obtain ⟨ds, hds⟩ := ih r hnext
      exact ⟨⟨op, r⟩ :: ds, .perform hop hds⟩
  · rintro ⟨ds, h⟩
    induction h with
    | done a s w => exact gives_pure.mpr ⟨rfl, rfl⟩
    | perform hop _ ih => exact hop.bind ih

/-- The program, started in a state and a world, performs these operations and has a
program left to do. -/
inductive Performs (handle : (op : S.Op) → σ → Run τ ε (S.Reply op × σ)) :
    Program S α → σ → World τ ε → List S.Done → Program S α → σ → World τ ε → Prop
  | none (p : Program S α) (s : σ) (w : World τ ε) : Performs handle p s w [] p s w
  | perform {op : S.Op} {next r s s₁ s' w w₁ w' ds p} (hop : (handle op s).Gives w (r, s₁) w₁)
      (h : Performs handle (next r) s₁ w₁ ds p s' w') :
      Performs handle (.perform op next) s w (⟨op, r⟩ :: ds) p s' w'

theorem Performs.invariant {I : List S.Done → σ → World τ ε → Prop}
    (hI : ∀ {ds op s w r s' w'}, I ds s w → (handle op s).Gives w (r, s') w' →
      I (ds ++ [⟨op, r⟩]) s' w') {p p' : Program S α}
    {s s' : σ} {w w' : World τ ε} {ds : List S.Done} (h : Performs handle p s w ds p' s' w')
      {sofar : List S.Done}
    (hs : I sofar s w) : I (sofar ++ ds) s' w' := by
  induction h generalizing sofar with
  | none p s w => simpa using hs
  | perform hop _ ih => simpa using ih (hI hs hop)

/-- An invariant that may speak of the operations so far holds where each operation of a run is
performed, in a world that the last one extends. -/
theorem Traces.step_of_append {I : List S.Done → σ → Prop} (hgrows : ∀ op s, (handle op s).Grows)
    (hI : ∀ {ds op s w r s' w'}, I ds s → (handle op s).Gives w (r, s') w' → I (ds ++ [⟨op, r⟩]) s')
      {p : Program S α}
    {s s' : σ} {a : α} {w w' : World τ ε} {ds : List S.Done} (h : Traces handle p s w ds a s' w')
      {sofar before : List S.Done}
    (hs : I sofar s) {d : S.Done} {after : List S.Done} (hds : ds = before ++ d :: after) :
    ∃ s₁ w₁ s₂ w₂, I (sofar ++ before) s₁ ∧ (handle d.1 s₁).Gives w₁ (d.2, s₂) w₂ ∧
      w₂.Extends w' := by
  induction h generalizing sofar before with
  | done a s w => simp at hds
  | @perform op next r s s₁ s' w w₁ w' ds a hop htail ih =>
    cases before with
    | nil =>
      obtain ⟨rfl, rfl⟩ := List.cons.inj hds
      have hs' : I (sofar ++ []) s := by simpa using hs
      exact ⟨s, w, s₁, w₁, hs', hop, grows_run hgrows _ _ (gives_iff_traces.mpr ⟨_, htail⟩)⟩
    | cons d' before =>
      obtain ⟨rfl, rfl⟩ := List.cons.inj hds
      have hrest := ih (hI hs hop) rfl
      simpa using hrest

end

/-! Bodies -/

def defined? : (composing τ ε).Done → Option (Section τ ε)
  | ⟨.defineSection name body, .ok ()⟩ => some ⟨name, some body⟩
  | _ => none

def set? : (composing τ ε).Done → Option τ
  | ⟨.setLayout t, .ok ()⟩ => some t
  | _ => none

def asked? : (composing τ ε).Done → Option String
  | ⟨.renderSection name _, _⟩ => some name
  | _ => none

def defined (ds : List (composing τ ε).Done) : List (Section τ ε) := ds.filterMap defined?

def pending (ds : List (composing τ ε).Done) : Option τ := (ds.filterMap set?).getLast?

def asked (ds : List (composing τ ε).Done) : List String := ds.filterMap asked?

def Executed.spendAll (x : Executed τ ε) (names : List String) : Executed τ ε :=
  names.foldl Executed.spend x

namespace Context
variable {nested : Nested τ ε}

/-- What operations make of a context. -/
structure Follows (ds : List (composing τ ε).Done) (cx cx' : Context τ ε) : Prop where
  writer : cx.writer.Akin cx'.writer
  sections : cx'.sections = cx.sections ++ defined ds
  layout : cx'.layout? = (pending ds).or cx.layout?
  input : ∃ names, names ⊆ asked ds ∧ cx'.input? = cx.input?.map fun x => x.spendAll names

theorem Follows.nil (cx : Context τ ε) : Follows [] cx cx :=
  ⟨.refl _, by simp [defined], rfl, [], by simp, by simp [Executed.spendAll]⟩

theorem Follows.append {ds ds' : List (composing τ ε).Done} {cx cx' cx'' : Context τ ε}
    (h : Follows ds cx cx') (h' : Follows ds' cx' cx'') : Follows (ds ++ ds') cx cx'' := by
  refine ⟨h.writer.trans h'.writer, ?_, ?_, ?_⟩
  · rw [h'.sections, h.sections]
    simp [defined]
  · rw [h'.layout, h.layout]
    simp [pending, List.getLast?_append, Option.or_assoc]
  · obtain ⟨names, hsub, hn⟩ := h.input
    obtain ⟨names', hsub', hn'⟩ := h'.input
    have hasked : names ++ names' ⊆ asked (ds ++ ds') := by
      simpa [asked] using ⟨fun _ h => List.mem_append_left _ (hsub h), fun _ h =>
        List.mem_append_right _ (hsub' h)⟩
    refine ⟨names ++ names', hasked, ?_⟩
    rw [hn', hn]
    simp [Executed.spendAll, Function.comp_def]

theorem Follows.of_writer {d : (composing τ ε).Done} (hd : defined? d = none) (hs : set? d = none)
    {cx cx' : Context τ ε} (hw : cx.writer.Akin cx'.writer) (hsections : cx'.sections = cx.sections)
      (hlayout : cx'.layout? = cx.layout?)
    (hinput : cx'.input? = cx.input?) : Follows [d] cx cx' := by
  refine ⟨hw, ?_, ?_, [], by simp, ?_⟩
  · simp [defined, hd, hsections]
  · simp [pending, hs, hlayout]
  · simp [Executed.spendAll, hinput]

theorem Follows.of_eq {d : (composing τ ε).Done} (hd : defined? d = none) (hs : set? d = none)
    {cx cx' : Context τ ε} (h : cx = cx') : Follows [d] cx cx' := by
  rw [h]
  exact .of_writer hd hs (.refl _) rfl rfl rfl

theorem follows_defineSection {cx cx' : Context τ ε} {name : String} {body : SectionBody τ ε}
    {r : Except RenderError Unit} (h : cx.defineSection name body = (r, cx')) :
    Follows [⟨.defineSection name body, r⟩] cx cx' := by
  unfold defineSection at h
  split at h
  · obtain ⟨rfl, rfl⟩ := Prod.mk.inj h
    exact .of_eq rfl rfl rfl
  · obtain ⟨rfl, rfl⟩ := Prod.mk.inj h
    exact ⟨.refl _, rfl, rfl, [], by simp, by simp [Executed.spendAll]⟩

theorem follows_setLayout {cx cx' : Context τ ε} {t : τ} {r : Except RenderError Unit}
    (h : cx.setLayout t = (r, cx')) :
    Follows [⟨.setLayout t, r⟩] cx cx' := by
  unfold setLayout at h
  split at h
  · obtain ⟨rfl, rfl⟩ := Prod.mk.inj h
    exact .of_eq rfl rfl rfl
  · obtain ⟨rfl, rfl⟩ := Prod.mk.inj h
    exact ⟨.refl _, by simp [defined, defined?], rfl, [], by simp, by simp [Executed.spendAll]⟩

theorem spends_renderSection {x x' : Executed τ ε} {name : String}
    {r : Except RenderError (Option String)}
    {w w' : World τ ε} (h : (x.renderSection nested name).Gives w (r, x') w') :
    x' = x ∨ x' = x.spend name := by
  unfold Executed.renderSection at h
  split at h
  · obtain ⟨hx, -⟩ := gives_pure.mp h
    exact .inl (Prod.mk.inj hx).2.symm
  split at h
  · obtain ⟨hx, -⟩ := gives_pure.mp h
    exact .inl (Prod.mk.inj hx).2.symm
  · obtain ⟨_, _, -, hp⟩ := gives_bind.mp h
    obtain ⟨hx, -⟩ := gives_pure.mp hp
    exact .inr (Prod.mk.inj hx).2.symm

theorem follows_renderSection {cx cx' : Context τ ε} {name : String} {required : Bool}
    {r : Except RenderError Encoded}
    {w w' : World τ ε} (h : (cx.renderSection nested name required).Gives w (r, cx') w') :
    Follows [⟨.renderSection name required, r⟩] cx cx' := by
  obtain ⟨c, w₁, -, h⟩ := gives_bind.mp h
  cases c with
  | error e =>
    obtain ⟨hx, -⟩ := gives_pure.mp h
    exact .of_eq rfl rfl (Prod.mk.inj hx).2
  | ok u =>
    cases hin : cx.input? with
    | none =>
      simp only [hin] at h
      obtain ⟨hx, -⟩ := gives_pure.mp h
      exact .of_eq rfl rfl (Prod.mk.inj hx).2
    | some x =>
      simp only [hin] at h
      obtain ⟨⟨s, x'⟩, w₂, hs, hp⟩ := gives_bind.mp h
      obtain ⟨hx, -⟩ := gives_pure.mp hp
      obtain rfl := (Prod.mk.inj hx).2
      rcases spends_renderSection hs with rfl | rfl
      · exact .of_writer rfl rfl (.refl _) rfl rfl hin.symm
      · exact ⟨.refl _,
          by simp [defined, defined?], rfl, [name], by simp [asked, asked?], by
          simp [hin, Executed.spendAll]⟩

theorem follows_flush {cx cx' : Context τ ε} {r : Except RenderError Unit} {w w' : World τ ε}
    (h : cx.flush.Gives w (r, cx') w') : Follows [⟨.flush, r⟩] cx cx' := by
  rcases flush_cases h with ⟨-, -, rfl, -⟩ | ⟨-, -, -, rfl, -⟩ | ⟨-, -, -, rfl⟩
  · exact .of_eq rfl rfl rfl
  · exact .of_eq rfl rfl rfl
  · exact .of_writer rfl rfl ⟨rfl, rfl⟩ rfl rfl rfl

theorem follows_perform {op : BodyOp τ ε} {cx cx' : Context τ ε} {r : op.Reply} {w w' : World τ ε}
    (h : (cx.perform nested op).Gives w (r, cx') w') : Follows [⟨op, r⟩] cx cx' := by
  cases op with
  | writer op =>
    obtain ⟨⟨r', x⟩, w₁, hx, hp⟩ := gives_bind.mp h
    obtain ⟨hcx, -⟩ := gives_pure.mp hp
    obtain ⟨rfl, rfl⟩ := Prod.mk.inj hcx
    exact .of_writer rfl rfl (Writer.akin_perform hx) rfl rfl rfl
  | setLayout t => exact follows_setLayout (gives_pure.mp h).1
  | defineSection name body => exact follows_defineSection (gives_pure.mp h).1
  | renderBody | isSectionDefined =>
    obtain ⟨hcx, -⟩ := gives_pure.mp h
    exact .of_eq rfl rfl (Prod.mk.inj hcx).2
  | renderSection name required => exact follows_renderSection h
  | flush => exact follows_flush h

end Context

theorem Traces.follows {nested : Nested τ ε} {p : Program (composing τ ε) α}
    {cx cx' : Context τ ε} {a : α} {w w' : World τ ε} {ds : List (composing τ ε).Done}
    (h : Traces (Context.perform nested) p cx w ds a cx' w') :
    Context.Follows ds cx cx' := by
  induction h with
  | done a cx w => exact .nil cx
  | perform hop _ ih => exact (Context.follows_perform hop).append ih

end Templating.Render
