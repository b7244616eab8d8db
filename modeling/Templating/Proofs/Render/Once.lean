import Mathlib.Data.List.Nodup
import Templating.Proofs.Render.Sections

/-! Sections go by names in which case does not matter: a body defines each name once, and its
layout has each run once. -/
namespace Templating.Render
open Text (fold sameFolded)
variable {τ ε : Type} {nested : Nested τ ε}

theorem sameFolded_iff {a b : String} : sameFolded a b = true ↔ fold a = fold b := beq_iff_eq

theorem Section.isCalled_iff {s : Section τ ε} {name : String} :
    s.isCalled name = true ↔ fold s.name = fold name :=
  sameFolded_iff

/-- The name of the section that was to be defined, if one was. -/
def declared? : (composing τ ε).Done → Option String
  | ⟨.defineSection name _, _⟩ => some name
  | _ => none

/-- The names under which sections were to be defined, with those that were refused. -/
def declared (ds : List (composing τ ε).Done) : List String := ds.filterMap declared?

/-- What a body can leave behind: sections that have not run, no two of them under one name. -/
structure Executed.Fresh (x : Executed τ ε) : Prop where
  bodies : ∀ s ∈ x.sections, s.body?.isSome
  names : (x.sections.map fun s => fold s.name).Nodup

/-- Runs the body of a section on a fresh writer. What it writes is the answer. -/
def Executed.runBody (nested : Nested τ ε) (x : Executed τ ε) (body : SectionBody τ ε) :
    Run τ ε (Except RenderError Encoded) := do
  let (r, y) ← body.run (Writer.perform nested) { kind := x.kind, token := x.token }
  pure (r.map fun _ => .raw y.output)

/-! Definitions -/

/-- The sections of the context are those that the operations define, each under a
name of its own. -/
structure Context.Declares (ds : List (composing τ ε).Done) (cx : Context τ ε) : Prop where
  fresh : cx.executed.Fresh
  called : ∀ name, cx.sections.any (·.isCalled name) = true ↔ ∃ other ∈ declared ds,
    sameFolded other name

namespace Context
variable {ds : List (composing τ ε).Done} {cx cx' : Context τ ε}

theorem Declares.of_sections {d : (composing τ ε).Done} (h : cx.Declares ds)
    (hd : declared? d = none)
    (hsections : cx'.sections = cx.sections) : cx'.Declares (ds ++ [d]) := by
  have hdeclared : declared (ds ++ [d]) = declared ds := by simp [declared, hd]
  obtain ⟨⟨hbodies, hnames⟩, hcalled⟩ := h
  refine ⟨⟨?_, ?_⟩, fun name => ?_⟩
  · simpa [executed, hsections] using hbodies
  · simpa [executed, hsections] using hnames
  · rw [hsections, hdeclared, hcalled]

theorem Declares.defineSection (h : cx.Declares ds) (name : String) (body : SectionBody τ ε) :
    ((∃ other ∈ declared ds, sameFolded other name) → cx.defineSection name body =
      (.error (.sectionRedefined name), cx)) ∧
      ((∀ other ∈ declared ds, ¬ sameFolded other name) →
        cx.defineSection name body =
          (.ok (), { cx with sections := cx.sections ++ [⟨name, some body⟩] })) := by
  refine ⟨fun hother => ?_, fun hnone => ?_⟩
  · rw [Context.defineSection, if_pos ((h.called name).mpr hother)]
  · rw [Context.defineSection, if_neg fun hcalled => ?_]
    obtain ⟨other, hmem, hsame⟩ := (h.called name).mp hcalled
    exact hnone other hmem hsame

theorem Declares.define {name : String} {body : SectionBody τ ε} {r : Except RenderError Unit}
    (h : cx.Declares ds) (hdefine : cx.defineSection name body = (r, cx')) :
    cx'.Declares (ds ++ [⟨.defineSection name body, r⟩]) := by
  have hdeclared : declared (ds ++ [⟨.defineSection name body, r⟩]) = declared ds ++ [name] := by
    simp [declared, declared?]
  obtain ⟨hrefused, hdefined⟩ := h.defineSection name body
  by_cases hother : ∃ other ∈ declared ds, sameFolded other name
  · -- The name adds nothing to those that were declared.
    obtain ⟨-, rfl⟩ := Prod.mk.inj ((hrefused hother).symm.trans hdefine)
    refine ⟨h.fresh, fun n => ?_⟩
    rw [h.called, hdeclared]
    obtain ⟨other, hmem, hsame⟩ := hother
    constructor
    · rintro ⟨o, ho, hn⟩
      exact ⟨o, List.mem_append_left _ ho, hn⟩
    · rintro ⟨o, ho, hn⟩
      rcases List.mem_append.mp ho with ho | ho
      · exact ⟨o, ho, hn⟩
      · obtain rfl := List.mem_singleton.mp ho
        exact ⟨other, hmem,
          sameFolded_iff.mpr ((sameFolded_iff.mp hsame).trans (sameFolded_iff.mp hn))⟩
  · have hnone : ∀ other ∈ declared ds, ¬ sameFolded other name :=
      fun other hmem hsame => hother ⟨other, hmem, hsame⟩
    obtain ⟨-, rfl⟩ := Prod.mk.inj ((hdefined hnone).symm.trans hdefine)
    have hfree : ∀ s ∈ cx.sections, ¬ s.isCalled name := fun s hs hcalled =>
      hother ((h.called name).mp (List.any_eq_true.mpr ⟨s, hs, hcalled⟩))
    refine ⟨⟨fun s hs => ?_, ?_⟩, fun n => ?_⟩
    · rcases List.mem_append.mp hs with hs | hs
      · exact h.fresh.bodies s hs
      · obtain rfl := List.mem_singleton.mp hs
        rfl
    · show ((cx.sections ++ [(⟨name, some body⟩ : Section τ ε)]).map fun s => fold s.name).Nodup
      rw [List.map_append, List.nodup_append]
      refine ⟨h.fresh.names, List.nodup_singleton _, fun a ha b hb => ?_⟩
      obtain ⟨s, hs, rfl⟩ := List.mem_map.mp ha
      obtain rfl := List.mem_singleton.mp hb
      exact fun hsame => hfree s hs (Section.isCalled_iff.mpr hsame)
    · rw [List.any_append, Bool.or_eq_true, h.called, hdeclared]
      simp [Section.isCalled, or_and_right, exists_or]

theorem Declares.perform (h : cx.Declares ds) {op : BodyOp τ ε} {r : op.Reply} {w w' : World τ ε}
    (hop : (cx.perform nested op).Gives w (r, cx') w') : cx'.Declares (ds ++ [⟨op, r⟩]) := by
  have hsections := (follows_perform hop).sections
  cases op with
  | defineSection name body => exact h.define (gives_pure.mp hop).1
  | writer _ | setLayout _ | renderBody | renderSection _ _ | isSectionDefined _ | flush =>
    exact h.of_sections rfl (hsections.trans (List.append_nil _))

end Context

/-! Calls -/

namespace Executed
variable {x : Executed τ ε} {names : List String} {name : String} {s : Section τ ε} {w : World τ ε}

theorem spendAll_sections (x : Executed τ ε) (names : List String) :
    (x.spendAll names).sections =
      x.sections.map fun s => if names.any (s.isCalled ·) then { s with body? := none } else s := by
  induction names generalizing x with
  | nil => simp [spendAll]
  | cons n names ih =>
    have hspend : (x.spendAll (n :: names)).sections = ((x.spend n).spendAll names).sections := rfl
    rw [hspend, ih, spend, List.map_map]
    refine List.map_congr_left fun s _ => ?_
    by_cases hn : s.isCalled n
    · simp [hn]
    · simp [hn]

theorem spendAll_again (h : ∀ s ∈ x.sections, s.isCalled name → ∃ other ∈ names, s.isCalled other) :
    x.spendAll (names ++ [name]) = x.spendAll names := by
  rw [x.spendAll_eq (names ++ [name]), x.spendAll_eq names, spendAll_sections, spendAll_sections]
  congr 1
  refine List.map_congr_left fun s hs => ?_
  have hany : (names ++ [name]).any (s.isCalled ·) = names.any (s.isCalled ·) := by
    rw [List.any_append, List.any_cons, List.any_nil, Bool.or_false, Bool.or_eq_left_iff_imp]
    exact fun hname => List.any_eq_true.mpr (h s hs hname)
  rw [hany]

theorem find?_spendAll (x : Executed τ ε) (names : List String) (name : String) :
    (x.spendAll names).sections.find? (·.isCalled name) =
      (x.sections.find? (·.isCalled name)).map fun s => if names.any (s.isCalled ·) then
        { s with body? := none } else s := by
  rw [spendAll_sections, List.find?_map]
  congr 2
  funext s
  rw [Function.comp_apply]
  split <;> rfl

theorem Fresh.find?_eq (hx : x.Fresh) (hs : s ∈ x.sections) (hname : s.isCalled name) :
    x.sections.find? (·.isCalled name) = some s := by
  obtain ⟨t, ht⟩ : ∃ t, x.sections.find? (·.isCalled name) = some t :=
    Option.isSome_iff_exists.mp (List.find?_isSome.mpr ⟨s, hs, hname⟩)
  have hcalled : t.isCalled name := List.find?_some ht
  have hsame : fold t.name = fold s.name :=
    (Section.isCalled_iff.mp hcalled).trans (Section.isCalled_iff.mp hname).symm
  rw [ht, List.inj_on_of_nodup_map hx.names (List.mem_of_find?_eq_some ht) hs hsame]

/-! A call for a section of what is left, by what was asked for before it -/

theorem renderSection_undefined (h : ∀ s ∈ x.sections, ¬ s.isCalled name) :
    (x.spendAll names).renderSection nested name w = .ready (.ok none, x.spendAll names) w := by
  have hnone : x.sections.find? (·.isCalled name) = none := List.find?_eq_none.mpr h
  simp only [renderSection, find?_spendAll, hnone, Option.map_none]
  rfl

theorem Fresh.renderSection_again (hx : x.Fresh) (hs : s ∈ x.sections) (hname : s.isCalled name)
    (hagain : ∃ other ∈ names, s.isCalled other) :
    (x.spendAll names).renderSection nested name w =
      .ready (.error (.sectionAlreadyRendered name), x.spendAll names) w := by
  have hany : names.any (s.isCalled ·) = true := List.any_eq_true.mpr hagain
  simp only [renderSection, find?_spendAll, hx.find?_eq hs hname, Option.map_some, hany, if_true]
  rfl

theorem Fresh.renderSection_first (hx : x.Fresh) (hs : s ∈ x.sections) (hname : s.isCalled name)
    (hfirst : ∀ other ∈ names, ¬ s.isCalled other) {body : SectionBody τ ε}
    (hbody : s.body? = some body) :
    (x.spendAll names).renderSection nested name =
      ((x.runSection nested s body).run >>= fun r =>
        pure (r.map some, x.spendAll (names ++ [name]))) := by
  have hany : ¬ names.any (s.isCalled ·) = true := fun h => by
    obtain ⟨other, hother, hcalled⟩ := List.any_eq_true.mp h
    exact hfirst other hother hcalled
  have hspend : (x.spendAll names).spend name = x.spendAll (names ++ [name]) := by simp [spendAll]
  have hrun : (x.spendAll names).runSection nested s body = x.runSection nested s body := by
    rw [x.spendAll_eq names]
    rfl
  simp only [renderSection, find?_spendAll, hx.find?_eq hs hname, Option.map_some, if_neg hany,
    hbody, hspend, hrun]

theorem runSection_free (x : Executed τ ε) {body : SectionBody τ ε}
    (hfree : w.arrive.signals.isCancelled x.token = false) :
    (x.runSection nested s body).run w =
      (body.run (Writer.perform nested) { kind := x.kind, token := x.token } >>= fun o =>
      pure (o.1.map fun _ => o.2.output)) (w.arrive.recorded (.sectionStarted s.name)) :=
  start_free hfree

theorem Fresh.spends (hx : x.Fresh) {r : Except RenderError (Option String)} {y : Executed τ ε}
    {w' : World τ ε} (h : ((x.spendAll names).renderSection nested name).Gives w (r, y) w') :
    y = x.spendAll (names ++ [name]) := by
  by_cases hdefined : ∃ s ∈ x.sections, s.isCalled name
  · obtain ⟨s, hs, hname⟩ := hdefined
    by_cases hagain : ∃ other ∈ names, s.isCalled other
    · rw [Task.Gives, hx.renderSection_again hs hname hagain] at h
      obtain ⟨hy, -⟩ := Prod.mk.inj (Option.some.inj h)
      rw [← (Prod.mk.inj hy).2]
      refine (spendAll_again fun t ht hcalled => ?_).symm
      obtain ⟨other, hother, hsame⟩ := hagain
      refine ⟨other, hother, Section.isCalled_iff.mpr ?_⟩
      exact (Section.isCalled_iff.mp hcalled).trans
        ((Section.isCalled_iff.mp hname).symm.trans (Section.isCalled_iff.mp hsame))
    · have hfirst : ∀ other ∈ names, ¬ s.isCalled other :=
        fun other hother hcalled => hagain ⟨other, hother, hcalled⟩
      obtain ⟨body, hbody⟩ := Option.isSome_iff_exists.mp (hx.bodies s hs)
      rw [hx.renderSection_first hs hname hfirst hbody] at h
      obtain ⟨r', w₁, -, hp⟩ := gives_bind.mp h
      obtain ⟨hy, -⟩ := gives_pure.mp hp
      exact (Prod.mk.inj hy).2.symm
  · have hundefined : ∀ s ∈ x.sections, ¬ s.isCalled name :=
      fun s hs hname => hdefined ⟨s, hs, hname⟩
    rw [Task.Gives, renderSection_undefined hundefined] at h
    obtain ⟨hy, -⟩ := Prod.mk.inj (Option.some.inj h)
    rw [← (Prod.mk.inj hy).2]
    exact (spendAll_again fun t ht hcalled => absurd hcalled (hundefined t ht)).symm

end Executed

namespace Context
variable {ds : List (composing τ ε).Done} {cx cx' : Context τ ε} {x : Executed τ ε}
  {w w' : World τ ε}

/-- The context is that of a body around another one. As long as the render is not cancelled, the
sections that were asked for are spent, and no others. -/
structure Spends (x : Executed τ ε) (ds : List (composing τ ε).Done) (cx : Context τ ε)
    (w : World τ ε) : Prop where
  around : cx.Around x x.token ds
  input : w.signals.isCancelled x.token = false → cx.input? = some (x.spendAll (asked ds))

theorem Spends.of_input {d : (composing τ ε).Done} (h : cx.Spends x ds w) (hd : asked? d = none)
    (haround : cx'.Around x x.token (ds ++ [d])) (hinput : cx'.input? = cx.input?)
    (hgrows : w.Extends w') :
    cx'.Spends x (ds ++ [d]) w' := by
  refine ⟨haround, fun hfree => ?_⟩
  have hasked : asked (ds ++ [d]) = asked ds := by simp [asked, hd]
  rw [hinput, hasked]
  exact h.input (hgrows.free hfree)

theorem Spends.perform (hx : x.Fresh) (h : cx.Spends x ds w) {op : BodyOp τ ε} {r : op.Reply}
    (hop : (cx.perform nested op).Gives w (r, cx') w') (hgrows : w.Extends w') :
    cx'.Spends x (ds ++ [⟨op, r⟩]) w' := by
  have haround := h.around.perform hop
  have hinput : asked? ⟨op, r⟩ = none → cx'.input? = cx.input? := by
    intro hd
    obtain ⟨names, hsub, hin⟩ := (follows_perform hop).input
    have hnone : asked [⟨op, r⟩] = [] := by simp [asked, hd]
    rw [hnone] at hsub
    rw [hin, List.eq_nil_of_subset_nil hsub]
    simp [Executed.spendAll]
  cases op with
  | writer _ | setLayout _ | defineSection _ _ | renderBody | isSectionDefined _ | flush =>
    exact h.of_input rfl haround (hinput rfl) hgrows
  | renderSection name required =>
    refine ⟨haround, fun hfree => ?_⟩
    obtain ⟨c, w₁, hc, hcall⟩ := gives_bind.mp hop
    cases c with
    | error e =>
      obtain ⟨-, rfl⟩ := gives_pure.mp hcall
      rw [h.around.1] at hc
      rw [cancelled_of_gives_check hc] at hfree
      cases hfree
    | ok u =>
      simp only [h.input (hgrows.free hfree)] at hcall
      obtain ⟨⟨s, y⟩, w₂, hs, hp⟩ := gives_bind.mp hcall
      obtain ⟨hr, -⟩ := gives_pure.mp hp
      obtain rfl := (Prod.mk.inj hr).2
      have hasked : asked (ds ++ [⟨.renderSection name required, r⟩]) = asked ds ++ [name] := by
        simp [asked, asked?]
      rw [hasked, hx.spends hs]

/-- A look at a token that is not cancelled comes first, and then the call is one for what is left
of the other body. -/
theorem renderSection_free {y : Executed τ ε} {name : String} {required : Bool}
    (hin : cx.input? = some y) (hfree : w.arrive.signals.isCancelled cx.writer.token = false) :
    cx.renderSection nested name required w = (y.renderSection nested name >>= fun o =>
      pure (o.1.bind (answer name required), { cx with input? := some o.2 })) w.arrive := by
  unfold renderSection
  rw [bind_of_ready (check_free hfree)]
  simp only [hin]

section
variable (h : cx.Spends x ds w) {name : String} {required : Bool}
include h

theorem Spends.renderSection_idle {o : Except RenderError (Option String)}
    (hfree : w.arrive.signals.isCancelled x.token = false)
    (hcall : (x.spendAll (asked ds)).renderSection nested name w.arrive =
      .ready (o, x.spendAll (asked ds)) w.arrive) :
    cx.renderSection nested name required w =
      .ready (o.bind (answer name required), cx) w.arrive := by
  have hin := h.input (w.extends_arrive.free hfree)
  have htoken : w.arrive.signals.isCancelled cx.writer.token = false := by
    rw [h.around.1]; exact hfree
  rw [renderSection_free hin htoken, bind_of_ready hcall]
  show Poll.ready (o.bind (answer name required),
      { cx with input? := some (x.spendAll (asked ds)) }) w.arrive = _
  rw [← hin]

theorem Spends.renderSection_first (hx : x.Fresh) {s : Section τ ε}
    (hfree : w.arrive.arrive.signals.isCancelled x.token = false) (hs : s ∈ x.sections)
      (hname : s.isCalled name) (hfirst : ∀ other ∈ asked ds, ¬ s.isCalled other)
    {body : SectionBody τ ε} (hbody : s.body? = some body) :
    cx.renderSection nested name required w =
      (x.runBody nested body >>= fun r =>
        pure (r, { cx with input? := some (x.spendAll (asked ds ++ [name])) }))
        (w.arrive.arrive.recorded (.sectionStarted s.name)) := by
  have hin := h.input (w.extends_arrive.free (w.arrive.extends_arrive.free hfree))
  have htoken : w.arrive.signals.isCancelled cx.writer.token = false := by
    rw [h.around.1]
    exact w.arrive.extends_arrive.free hfree
  have hresult : ∀ (r : Except RenderError Unit) (y : Writer),
      ((r.map fun _ => y.output).map some).bind (answer name required) =
      r.map fun _ => .raw y.output := by
    intro r y
    cases r <;> rfl
  rw [renderSection_free hin htoken, hx.renderSection_first hs hname hfirst hbody, bind_assoc]
  show ((x.runSection nested s body).run w.arrive).bind _ = _
  rw [x.runSection_free hfree]
  refine congrFun (?_ : (_ >>= _ : Run τ ε _) = _)
    (w.arrive.arrive.recorded (.sectionStarted s.name))
  simp only [Executed.runBody, bind_assoc, pure_bind, hresult]

end

end Context

/-! Runs of bodies -/

section
variable {lib : Library τ ε} {depth : Nat} {p p' : Body τ ε} {cx cx' : Context τ ε}
  {w w' : World τ ε}
  {ds : List (composing τ ε).Done}

theorem Performs.declares (h : Performs (Context.perform nested) p cx w ds p' cx' w')
    (hcx : cx.sections = []) :
    cx'.Declares ds := by
  have hstart : cx.Declares [] := by
    refine ⟨⟨fun s hs => ?_, ?_⟩, fun name => ?_⟩
    · rw [Context.executed, hcx] at hs
      cases hs
    · rw [Context.executed, hcx]
      exact List.nodup_nil
    · simp [hcx, declared]
  exact h.invariant (I := fun ds cx _ => cx.Declares ds) (fun hI hop => hI.perform hop) hstart

theorem Performs.follows (h : Performs (Context.perform nested) p cx w ds p' cx' w') :
    Context.Follows ds cx cx' :=
  h.invariant (I := fun ds cx' _ => Context.Follows ds cx cx') (fun hI hop =>
    hI.append (Context.follows_perform hop))
    (.nil cx)

theorem Performs.spends {x : Executed τ ε} (hx : x.Fresh)
    (h : Performs (Context.perform (renderNested lib depth)) p cx w ds p' cx' w')
      (hin : cx.input? = some x)
    (htoken : cx.writer.token = x.token) : cx'.Spends x ds w' := by
  have hstart : cx.Spends x [] w := ⟨⟨htoken, [], List.nil_subset _, hin⟩, fun _ => hin⟩
  refine h.invariant (I := fun ds cx w => cx.Spends x ds w) (fun hI hop =>
    hI.perform hx hop ?_) hstart
  exact grows_context (grows_renderNested lib depth) _ _ hop

end

/-- A body defines no section under a name that was declared before in whatever case, and so leaves
its sections behind under names of their own. After any operations of a body around it, as long as
the render is not cancelled: the first call for a section runs it on a fresh writer, and answers
with what it writes or how it fails; every later call, and every call for what is not defined, is
answered at once and changes nothing; and which sections are defined is what it was. -/
theorem sections_once (lib : Library τ ε) (depth : Nat) :
    (∀ {p p' : Body τ ε} {cx cx' : Context τ ε} {w w' : World τ ε} {ds : List (composing τ ε).Done},
      cx.sections = [] →
      Performs (Context.perform (renderNested lib depth)) p cx w ds p' cx' w' →
        (cx'.executed.Fresh ∧ cx'.executed.sections = defined ds ∧
          cx'.executed.kind = cx.writer.kind ∧
          cx'.executed.token = cx.writer.token) ∧
        ∀ name body,
          ((∃ other ∈ declared ds, sameFolded other name) →
            cx'.defineSection name body = (.error (.sectionRedefined name), cx')) ∧
          ((∀ other ∈ declared ds, ¬ sameFolded other name) →
            cx'.defineSection name body =
              (.ok (), { cx' with sections := cx'.sections ++ [⟨name, some body⟩] }))) ∧
    ∀ {p p' : Body τ ε} {x : Executed τ ε} {cx cx' : Context τ ε} {w w' : World τ ε}
      {ds : List (composing τ ε).Done},
      x.Fresh → cx.input? = some x → cx.writer.token = x.token →
      Performs (Context.perform (renderNested lib depth)) p cx w ds p' cx' w' →
        ∀ name, cx'.isSectionDefined name = .ok (x.isSectionDefined name) ∧
          ∀ required, w'.arrive.arrive.signals.isCancelled x.token = false →
            ((∀ s ∈ x.sections, ¬ s.isCalled name) →
              cx'.renderSection (renderNested lib depth) name required w' =
              .ready (if required then .error (.sectionNotDefined name) else .ok {}, cx')
                w'.arrive) ∧
            ∀ s ∈ x.sections, s.isCalled name →
              ((∃ other ∈ asked ds, s.isCalled other) →
                cx'.renderSection (renderNested lib depth) name required w' =
                .ready (.error (.sectionAlreadyRendered name), cx') w'.arrive) ∧
              ((∀ other ∈ asked ds, ¬ s.isCalled other) → ∃ body, s.body? = some body ∧
                cx'.renderSection (renderNested lib depth) name required w' =
                  (x.runBody (renderNested lib depth) body >>= fun r =>
                    pure (r, { cx' with input? := some (x.spendAll (asked ds ++ [name])) }))
                      (w'.arrive.arrive.recorded (.sectionStarted s.name))) := by
  refine ⟨fun hcx h => ⟨?left, (h.declares hcx).defineSection⟩,
    fun {p p' x cx cx' w w' ds} hx hin htoken h name => ?_⟩
  case left =>
    have hfollows := h.follows
    refine ⟨(h.declares hcx).fresh, ?_, hfollows.writer.kind, hfollows.writer.token⟩
    exact hfollows.sections.trans (by rw [hcx, List.nil_append])
  have hspends := h.spends hx hin htoken
  refine ⟨hspends.around.isSectionDefined_eq name, fun required hfree => ?_⟩
  have hfirst : w'.arrive.signals.isCancelled x.token = false := w'.arrive.extends_arrive.free hfree
  refine ⟨fun hundefined => ?undefined, fun s hs hname =>
    ⟨fun hagain => ?again, fun hfirst => ?first⟩⟩
  case undefined =>
    exact hspends.renderSection_idle hfirst (Executed.renderSection_undefined hundefined)
  case again => exact hspends.renderSection_idle hfirst (hx.renderSection_again hs hname hagain)
  case first =>
    obtain ⟨body, hbody⟩ := Option.isSome_iff_exists.mp (hx.bodies s hs)
    exact ⟨body, hbody, hspends.renderSection_first hx hfree hs hname hfirst hbody⟩

/-! A page with nothing but a menu that fails, and a body around it that asks for the menu -/

def brokenMenu : SectionBody Unit Unit := .done (.error (.other "no menu"))

def menuBody : Body Unit Unit := .perform (.defineSection "menu" brokenMenu) .done

def menuPage : Context Unit Unit :=
  { writer := { kind := .html, token := ⟨0⟩ }, sections := [⟨"menu", some brokenMenu⟩] }

def frameBody : Body Unit Unit := .perform (.renderSection "Menu" true) fun r =>
  .done (r.map fun _ => ())

def menuFrame : Context Unit Unit :=
  { writer := { kind := .html, token := ⟨0⟩ }, input? := some (menuPage.executed.spend "Menu") }

/-- Templates that are empty. -/
def blank : Library Unit Unit := fun _ => { body := .done (.ok ()) }

/-- The name of the menu is taken in all its spellings, and the menu has had its
run although it failed. -/
theorem sections_once_menu :
    menuPage.defineSection "MENU" brokenMenu = (.error (.sectionRedefined "MENU"), menuPage) ∧
      menuFrame.renderSection (renderNested blank 0) "MENU" true
        { log := [.sectionStarted "menu"] } =
        .ready (.error (.sectionAlreadyRendered "MENU"), menuFrame)
          { log := [.sectionStarted "menu"] } := by
  obtain ⟨hdefine, hcall⟩ := sections_once blank 0
  have hpage : Performs (Context.perform (renderNested blank 0)) menuBody (.new .html ⟨0⟩) {}
      [⟨.defineSection "menu" brokenMenu, .ok ()⟩] (.done (.ok ())) menuPage {} :=
        .perform rfl (.none _ _ _)
  have hframe : Performs (Context.perform (renderNested blank 0)) frameBody
      { menuFrame with input? := some menuPage.executed } {}
      [⟨.renderSection "Menu" true, .error (.other "no menu")⟩] (.done (.error (.other "no menu")))
        menuFrame
      { log := [.sectionStarted "menu"] } := .perform rfl (.none _ _ _)
  obtain ⟨⟨hfresh, -⟩, hnames⟩ := hdefine rfl hpage
  obtain ⟨-, hcalls⟩ := hcall hfresh (by rfl) (by rfl) hframe "MENU"
  obtain ⟨-, hmenu⟩ := hcalls true rfl
  refine ⟨(hnames "MENU" _).1 ⟨"menu", by decide, by decide⟩, ?_⟩
  exact (hmenu _ (List.mem_singleton.mpr rfl) (by decide)).1 ⟨"Menu", by decide, by decide⟩

end Templating.Render
