import Templating.Proofs.Render.Trace

/-! Sections as the body of a layout sees them: they are those that the body below defined, and each
is rendered on a writer of its own, until it is spent. -/
namespace Templating.Render
variable {τ ε : Type} {nested : Nested τ ε} {token : Token}

/-- What is answered to a body that asks for a section of what is left of another one, after it has
asked for some. -/
inductive Executed.Answers (nested : Nested τ ε) (x : Executed τ ε) (before : List String)
    (name : String) (required : Bool) :
    Except RenderError Encoded → Prop
  | undefined (h : x.isSectionDefined name = false) :
    Answers nested x before name required (Context.answer name required none)
  | again {s other} (hmem : s ∈ x.sections) (hname : s.isCalled name) (hother : other ∈ before)
      (hcalled : s.isCalled other) :
    Answers nested x before name required (.error (.sectionAlreadyRendered name))
  | rendered {s body result y w w'} (hmem : s ∈ x.sections) (hname : s.isCalled name)
      (hbody : s.body? = some body)
      (hrun : (body.run (Writer.perform nested) { kind := x.kind, token := x.token }).Gives w
        (result, y) w') :
    Answers nested x before name required (result.map fun _ => .raw y.output)

namespace Executed

theorem isSectionDefined_spend (x : Executed τ ε) (other name : String) :
    (x.spend other).isSectionDefined name = x.isSectionDefined name := by
  have hcalled : ∀ s : Section τ ε,
      Section.isCalled name (if s.isCalled other then { s with body? := none } else s) =
      s.isCalled name := by
    intro s
    split <;> rfl
  simp [isSectionDefined, spend, Function.comp_def, hcalled]

theorem isSectionDefined_spendAll (x : Executed τ ε) (names : List String) (name : String) :
    (x.spendAll names).isSectionDefined name = x.isSectionDefined name := by
  induction names generalizing x with
  | nil => rfl
  | cons n names ih =>
    have h : ((x.spend n).spendAll names).isSectionDefined name =
        (x.spend n).isSectionDefined name := ih (x.spend n)
    exact h.trans (isSectionDefined_spend x n name)

theorem spendAll_eq (x : Executed τ ε) (names : List String) :
    x.spendAll names = { x with sections := (x.spendAll names).sections } := by
  induction names generalizing x with
  | nil => rfl
  | cons n names ih => exact ih (x.spend n)

theorem mem_of_spendAll {x : Executed τ ε} {names : List String} {s : Section τ ε}
    (h : s ∈ (x.spendAll names).sections) :
    s ∈ x.sections ∨ s.body? = none ∧ ∃ s₀ ∈ x.sections, s₀.name = s.name ∧ ∃ n ∈ names,
      s.isCalled n := by
  induction names generalizing x with
  | nil => exact .inl h
  | cons n names ih =>
    rcases ih (x := x.spend n) h with hs | ⟨hnone, s₁, hs₁, hname, m, hm, hcalled⟩
    · obtain ⟨s₀, hs₀, heq⟩ := List.mem_map.mp hs
      by_cases hc : s₀.isCalled n
      · rw [if_pos hc] at heq
        subst heq
        exact .inr ⟨rfl, s₀, hs₀, rfl, n, List.mem_cons_self, hc⟩
      · rw [if_neg hc] at heq
        rw [← heq]
        exact .inl hs₀
    · obtain ⟨s₀, hs₀, heq⟩ := List.mem_map.mp hs₁
      have hname₀ : s₀.name = s₁.name := by
        rw [← heq]
        split <;> rfl
      exact .inr ⟨hnone, s₀, hs₀, hname₀.trans hname, m, List.mem_cons_of_mem n hm, hcalled⟩

end Executed

theorem body_of_mem_defined {ds : List (composing τ ε).Done} {s : Section τ ε}
    (h : s ∈ defined ds) : s.body?.isSome := by
  obtain ⟨d, -, hs⟩ := List.mem_filterMap.mp h
  unfold defined? at hs
  split at hs
  · cases hs
    rfl
  · cases hs

/-- The context is that of a body around another one, some of whose sections may be spent: those
that were asked for. -/
def Context.Around (x : Executed τ ε) (token : Token) (ds : List (composing τ ε).Done)
    (cx : Context τ ε) : Prop :=
  cx.writer.token = token ∧ ∃ names, names ⊆ asked ds ∧ cx.input? = some (x.spendAll names)

namespace Context.Around
variable {x : Executed τ ε} {ds : List (composing τ ε).Done} {cx cx' : Context τ ε}
  {w w' : World τ ε}

theorem perform (h : cx.Around x token ds) {op : BodyOp τ ε} {r : op.Reply}
    (hop : (cx.perform nested op).Gives w (r, cx') w') :
    cx'.Around x token (ds ++ [⟨op, r⟩]) := by
  obtain ⟨htoken, names, hsub, hin⟩ := h
  have hcx := follows_perform hop
  obtain ⟨names', hsub', hin'⟩ := hcx.input
  have hasked : names ++ names' ⊆ asked (ds ++ [⟨op, r⟩]) := by
    simpa only [asked, List.filterMap_append, List.append_subset] using
      ⟨fun _ h => List.mem_append_left _ (hsub h), fun _ h => List.mem_append_right _ (hsub' h)⟩
  refine ⟨hcx.writer.token.trans htoken, names ++ names', hasked, ?_⟩
  rw [hin', hin]
  simp [Executed.spendAll]

theorem renderBody_eq (h : cx.Around x token ds) : cx.renderBody = .ok (.raw x.output) := by
  obtain ⟨-, names, -, hin⟩ := h
  have hout : (x.spendAll names).output = x.output := by rw [x.spendAll_eq names]
  simp [renderBody, hin, hout]

theorem isSectionDefined_eq (h : cx.Around x token ds) (name : String) :
    cx.isSectionDefined name = .ok (x.isSectionDefined name) := by
  obtain ⟨-, names, -, hin⟩ := h
  simp [isSectionDefined, hin, Executed.isSectionDefined_spendAll]

end Context.Around

theorem Executed.answers_of_renderSection {x x' : Executed τ ε}
    (hx : ∀ s ∈ x.sections, s.body?.isSome)
    {names before : List String} (hsub : names ⊆ before) {name : String} {required : Bool}
    {r : Except RenderError (Option String)} {w w' : World τ ε}
    (h : ((x.spendAll names).renderSection nested name).Gives w (r, x') w')
    (hfree : w'.signals.isCancelled x.token = false) :
    x.Answers nested before name required (r.bind (Context.answer name required)) := by
  have heq := x.spendAll_eq names
  have hkind : (x.spendAll names).kind = x.kind := by rw [heq]
  have htoken : (x.spendAll names).token = x.token := by rw [heq]
  unfold Executed.renderSection at h
  split at h
  case h_1 hnone =>
    obtain ⟨rfl, -⟩ := Prod.mk.inj (gives_pure.mp h).1
    have hundefined : (x.spendAll names).isSectionDefined name = false := by
      simpa [isSectionDefined, List.find?_eq_none] using hnone
    exact .undefined (by rw [← hundefined, isSectionDefined_spendAll])
  case h_2 s hsome =>
    have hname : s.isCalled name = true := List.find?_some hsome
    have hmem := mem_of_spendAll (List.mem_of_find?_eq_some hsome)
    split at h
    case h_1 hbody =>
      obtain ⟨rfl, -⟩ := Prod.mk.inj (gives_pure.mp h).1
      rcases hmem with hs | ⟨-, s₀, hs₀, hsame, n, hn, hcalled⟩
      · have hsome := hx s hs
        rw [hbody] at hsome
        cases hsome
      · have hname₀ : s₀.isCalled name := by rw [Section.isCalled, hsame]; exact hname
        have hcalled₀ : s₀.isCalled n := by rw [Section.isCalled, hsame]; exact hcalled
        exact .again hs₀ hname₀ (hsub hn) hcalled₀
    case h_2 body hbody =>
      obtain ⟨r', w₁, hrun, hp⟩ := gives_bind.mp h
      obtain ⟨hr, rfl⟩ := gives_pure.mp hp
      obtain ⟨rfl, -⟩ := Prod.mk.inj hr
      rcases gives_runSection.mp hrun with ⟨hcancelled, -, rfl⟩ | ⟨-, result, y, hgives, rfl⟩
      · rw [htoken, hfree] at hcancelled
        cases hcancelled
      rw [hkind, htoken] at hgives
      rcases hmem with hs | ⟨hnone, -⟩
      · have hanswer : x.Answers nested before name required (result.map fun _ => .raw y.output) :=
          .rendered hs hname hbody hgives
        cases result <;> exact hanswer
      · rw [hbody] at hnone
        cases hnone

theorem Context.Around.answers {x : Executed τ ε} (hx : ∀ s ∈ x.sections, s.body?.isSome)
    {ds : List (composing τ ε).Done}
    {cx cx' : Context τ ε} (hcx : cx.Around x x.token ds) {name : String} {required : Bool}
      {r : Except RenderError Encoded}
    {w w' : World τ ε} (h : (cx.renderSection nested name required).Gives w (r, cx') w')
    (hfree : w'.signals.isCancelled x.token = false) :
    x.Answers nested (asked ds) name required r := by
  obtain ⟨htoken, names, hsub, hin⟩ := hcx
  obtain ⟨c, w₁, hc, h⟩ := gives_bind.mp h
  cases c with
  | error e =>
    obtain ⟨-, rfl⟩ := gives_pure.mp h
    rw [htoken] at hc
    rw [cancelled_of_gives_check hc] at hfree
    cases hfree
  | ok u =>
    simp only [hin] at h
    obtain ⟨⟨s, x'⟩, w₂, hs, hp⟩ := gives_bind.mp h
    obtain ⟨hr, rfl⟩ := gives_pure.mp hp
    obtain ⟨rfl, -⟩ := Prod.mk.inj hr
    exact Executed.answers_of_renderSection hx hsub hs hfree

end Templating.Render
