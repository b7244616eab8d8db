import Templating.Proofs.Render.Sections

/-! Layouts around layouts: what a render to a text gives, which bodies it runs, and what each of
them sees of the body it is around. -/
namespace Templating.Render
variable {τ ε : Type}

/-- A body that ran: what it did, what it wrote, and the worlds in which it started and stopped. -/
structure Layer (τ ε : Type) where
  template : τ
  steps : List (composing τ ε).Done
  output : String
  start : World τ ε
  stop : World τ ε

namespace Layer

/-- What the body leaves for the layout around it. -/
def left (lib : Library τ ε) (token : Token) (l : Layer τ ε) : Executed τ ε :=
  ⟨l.output, defined l.steps, none, (lib l.template).kind, token⟩

def events (l : Layer τ ε) : List (Event τ ε) := l.stop.log.drop l.start.log.length

/-- The body of the template can do all this around what is left of another body, if there is one,
and succeeds. -/
def Runs (lib : Library τ ε) (nested : Nested τ ε) (token : Token) (below? : Option (Executed τ ε))
    (l : Layer τ ε) : Prop :=
  ∃ cx, Traces (Context.perform nested) (lib l.template).body
      { Context.new (lib l.template).kind token with input? := below? } l.start l.steps (.ok ()) cx
        l.stop ∧
    cx.writer.output = l.output

/-- What a body sees of the one below it: its output, and exactly the sections that it defined. -/
structure Sees (lib : Library τ ε) (nested : Nested τ ε) (token : Token) (below l : Layer τ ε) :
    Prop where
  body : ∀ r, ⟨.renderBody, r⟩ ∈ l.steps → r = .ok (.raw below.output)
  visible : ∀ name r, ⟨.isSectionDefined name, r⟩ ∈ l.steps →
    r = .ok ((defined below.steps).any (·.isCalled name))
  sections : ∀ before name required r after,
    l.steps = before ++ ⟨.renderSection name required, r⟩ :: after →
    (below.left lib token).Answers nested (asked before) name required r

end Layer

def World.entered (w : World τ ε) (t : τ) : World τ ε :=
  { w.arrive.arrive with log := w.arrive.arrive.log ++ [.started t] }

/-- Bodies that run and succeed one after another, each as the layout that the one before left
pending. More layouts may be pending after the last of them. -/
inductive Climbs (lib : Library τ ε) (nested : Nested τ ε) (token : Token) :
    Option (Executed τ ε) → τ → World τ ε → List (Layer τ ε) → Layer τ ε → Prop
  | last {below? w l} (hl : l.Runs lib nested token below?)
      (hstart : l.start = w.entered l.template) :
    Climbs lib nested token below? l.template w [l] l
  | next {below? t w l ls top} (hl : l.Runs lib nested token below?)
      (hstart : l.start = w.entered l.template)
      (ht : pending l.steps = some t)
      (h : Climbs lib nested token (some (l.left lib token)) t l.stop ls top) :
    Climbs lib nested token below? l.template w (l :: ls) top

section
variable {lib : Library τ ε} {nested : Nested τ ε} {token : Token}

/-! One body -/

theorem World.extends_entered (w : World τ ε) (t : τ) : w.Extends (w.entered t) :=
  w.extends_arrive.trans (w.arrive.extends_arrive.trans ⟨List.prefix_append _ _, fun _ h => h⟩)

@[simp] theorem World.entered_log (w : World τ ε) (t : τ) :
    (w.entered t).log = w.log ++ [.started t] := by
  simp [World.entered]

variable (hn : ∀ t token, Attempt.Grows (nested t token))

include hn in
theorem Layer.Runs.extends {below? : Option (Executed τ ε)} {l : Layer τ ε}
    (hl : l.Runs lib nested token below?) :
    l.start.Extends l.stop := by
  obtain ⟨cx, h, -⟩ := hl
  exact grows_run (grows_context hn) _ _ (gives_iff_traces.mpr ⟨_, h⟩)

include hn in
theorem Layer.Runs.stop_log {below? : Option (Executed τ ε)} {l : Layer τ ε}
    (hl : l.Runs lib nested token below?) :
    l.stop.log = l.start.log ++ l.events := by
  obtain ⟨es, hes⟩ := (hl.extends hn).log
  simp [events, ← hes]

theorem executed_eq {below? : Option (Executed τ ε)} {t : τ} {ds : List (composing τ ε).Done}
    {cx : Context τ ε} {r : Except RenderError Unit} {w w' : World τ ε}
      (h : Traces (Context.perform nested) (lib t).body
      { Context.new (lib t).kind token with input? := below? } w ds r cx w') :
    cx.executed = ⟨cx.writer.output, defined ds, pending ds, (lib t).kind, token⟩ := by
  have hcx := h.follows
  have hsections : cx.sections = defined ds := by simpa [Context.new] using hcx.sections
  have hlayout : cx.layout? = pending ds := by simpa [Context.new] using hcx.layout
  have hkind : cx.writer.kind = (lib t).kind := hcx.writer.kind
  have htoken : cx.writer.token = token := hcx.writer.token
  simp [Context.executed, hsections, hlayout, hkind, htoken]

theorem Layer.Runs.gives_execute {below? : Option (Executed τ ε)} {l : Layer τ ε}
    (hl : l.Runs lib nested token below?) {w : World τ ε} (hstart : l.start = w.entered l.template)
    (hfree : l.start.signals.isCancelled token = false) :
    (execute lib nested l.template { Context.new (lib l.template).kind token with input? :=
      below? }).run.Gives w.arrive
      (.ok { l.left lib token with layout? := pending l.steps }) l.stop := by
  obtain ⟨cx, h, hout⟩ := hl
  have hx : cx.executed = { l.left lib token with layout? := pending l.steps } := by
    rw [executed_eq h, hout, Layer.left]
  rw [hstart] at h hfree
  refine Templating.Render.gives_execute.mpr
    (.inr ⟨hfree, .ok (), cx, gives_iff_traces.mpr ⟨_, h⟩, ?_⟩)
  rw [← hx]
  rfl

include hn in
theorem Layer.Runs.around {x : Executed τ ε} {l : Layer τ ε} (hl : l.Runs lib nested token (some x))
    {before : List (composing τ ε).Done} {d : (composing τ ε).Done}
      {after : List (composing τ ε).Done}
    (hd : l.steps = before ++ d :: after) :
    ∃ (cx : Context τ ε) (w : World τ ε) (cx' : Context τ ε) (w' : World τ ε),
      cx.Around x token before ∧
      (cx.perform nested d.1).Gives w (d.2, cx') w' ∧ w'.Extends l.stop := by
  obtain ⟨cx, h, -⟩ := hl
  have hstart : Context.Around x token []
      { Context.new (lib l.template).kind token with input? := some x } :=
    ⟨rfl, [], by simp, rfl⟩
  exact h.step_of_append (I := Context.Around x token) (grows_context hn) (fun hcx hop =>
    hcx.perform hop) hstart hd

include hn in
theorem Layer.Runs.sees {below l : Layer τ ε}
    (hl : l.Runs lib nested token (some (below.left lib token)))
    (hfree : l.stop.signals.isCancelled token = false) : Sees lib nested token below l := by
  refine ⟨?body, ?visible, ?sections⟩
  case body =>
    intro r hr
    obtain ⟨before, after, hd⟩ := List.append_of_mem hr
    obtain ⟨cx, w, cx', w', hcx, hop, -⟩ := hl.around hn hd
    obtain ⟨rfl, -⟩ := Prod.mk.inj (gives_pure.mp hop).1
    exact hcx.renderBody_eq
  case visible =>
    intro name r hr
    obtain ⟨before, after, hd⟩ := List.append_of_mem hr
    obtain ⟨cx, w, cx', w', hcx, hop, -⟩ := hl.around hn hd
    obtain ⟨rfl, -⟩ := Prod.mk.inj (gives_pure.mp hop).1
    exact hcx.isSectionDefined_eq name
  case sections =>
    intro before name required r after hd
    obtain ⟨cx, w, cx', w', hcx, hop, hext⟩ := hl.around hn hd
    exact Context.Around.answers (fun s hs => body_of_mem_defined hs) hcx hop (hext.free hfree)

/-! A chain of layouts -/

include hn in
theorem Climbs.extends {below? : Option (Executed τ ε)} {t : τ} {w : World τ ε}
    {ls : List (Layer τ ε)} {top : Layer τ ε} (h : Climbs lib nested token below? t w ls top) :
    w.Extends top.stop ∧ ∀ l ∈ ls, l.stop.Extends top.stop := by
  induction h with
  | @last below? w l hl hstart =>
    have hrun : w.Extends l.stop := (w.extends_entered l.template).trans (hstart ▸ hl.extends hn)
    exact ⟨hrun, by simp [World.Extends.refl]⟩
  | @next below? t w l ls top hl hstart ht h ih =>
    have hrun : w.Extends l.stop := (w.extends_entered l.template).trans (hstart ▸ hl.extends hn)
    refine ⟨hrun.trans ih.1, ?_⟩
    intro l' hl'
    rcases List.mem_cons.mp hl' with rfl | hl'
    · exact ih.1
    · exact ih.2 l' hl'

include hn in
theorem Climbs.log_eq {below? : Option (Executed τ ε)} {t : τ} {w : World τ ε}
    {ls : List (Layer τ ε)} {top : Layer τ ε} (h : Climbs lib nested token below? t w ls top) :
    top.stop.log = w.log ++ ls.flatMap fun l => .started l.template :: l.events := by
  induction h with
  | last hl hstart =>
    rw [hl.stop_log hn, hstart]
    simp
  | next hl hstart ht h ih =>
    rw [ih, hl.stop_log hn, hstart]
    simp

theorem Climbs.head {below? : Option (Executed τ ε)} {t : τ} {w : World τ ε} {ls : List (Layer τ ε)}
    {top : Layer τ ε} (h : Climbs lib nested token below? t w ls top) :
    ∃ l ls', ls = l :: ls' ∧ l.Runs lib nested token below? := by
  cases h with
  | last hl hstart => exact ⟨_, _, rfl, hl⟩
  | next hl hstart ht h => exact ⟨_, _, rfl, hl⟩

include hn in
theorem Climbs.sees {below? : Option (Executed τ ε)} {t : τ} {w : World τ ε} {ls : List (Layer τ ε)}
    {top : Layer τ ε} (h : Climbs lib nested token below? t w ls top)
    (hfree : top.stop.signals.isCancelled token = false) :
    ∀ i l l', ls[i]? = some l → ls[i + 1]? = some l' → Layer.Sees lib nested token l l' := by
  induction h with
  | last hl hstart =>
    intro i l l' _ hl'
    simp at hl'
  | @next below? t w l ls top hl hstart ht h ih =>
    intro i x y hx hy
    cases i with
    | zero =>
      obtain ⟨l', ls', rfl, hl'⟩ := h.head
      obtain rfl : l = x := by simpa using hx
      obtain rfl : l' = y := by simpa using hy
      exact hl'.sees hn (((h.extends hn).2 l' List.mem_cons_self).free hfree)
    | succ i => exact ih hfree i x y (by simpa using hx) (by simpa using hy)

/-- A template is executed around what is left of another one, and then the layouts around it. -/
def ascend (lib : Library τ ε) (nested : Nested τ ε) (left : Nat) (t : τ) (token : Token)
    (below? : Option (Executed τ ε)) :
    Attempt τ ε String := do
  World.check token
  compose lib nested left
    (← execute lib nested t { Context.new (lib t).kind token with input? := below? })

theorem renderText_eq (lib : Library τ ε) (depth : Nat) (t : τ) (token : Token) :
    renderText lib depth t token = ascend lib (renderNested lib depth) maxLayouts t token none :=
      rfl

theorem compose_pending {left : Nat} {x : Executed τ ε} {t : τ} :
    compose lib nested (left + 1) { x with layout? := some t } =
      ascend lib nested left t x.token (some { x with layout? := none }) := rfl

theorem Layer.Runs.gives_ascend {below? : Option (Executed τ ε)} {l : Layer τ ε}
    (hl : l.Runs lib nested token below?)
    {w w' : World τ ε} {left : Nat} {r : Except RenderError String}
      (hstart : l.start = w.entered l.template)
    (hfree : l.start.signals.isCancelled token = false)
    (h : (compose lib nested left { l.left lib token with layout? := pending l.steps }).run.Gives
      l.stop r w') :
    (ascend lib nested left l.template token below?).run.Gives w r w' := by
  have hbefore : w.arrive.Extends l.start := by
    rw [hstart]
    exact w.arrive.extends_arrive.trans ⟨List.prefix_append _ _, fun _ h => h⟩
  refine gives_attempt_bind.mpr (.inr ⟨(), w.arrive, gives_check_free (hbefore.free hfree), ?_⟩)
  exact gives_attempt_bind.mpr (.inr ⟨_, l.stop, hl.gives_execute hstart hfree, h⟩)

include hn in
theorem Climbs.gives_ascend {below? : Option (Executed τ ε)} {t : τ} {w : World τ ε}
    {ls : List (Layer τ ε)} {top : Layer τ ε} (h : Climbs lib nested token below? t w ls top)
    (hfree : top.stop.signals.isCancelled token = false) (left : Nat) :
    (pending top.steps = none → ls.length ≤ left + 1 →
      (ascend lib nested left t token below?).run.Gives w (.ok top.output) top.stop) ∧
    ((pending top.steps).isSome → ls.length = left + 1 →
      (ascend lib nested left t token below?).run.Gives w (.error (.layoutDepthExceeded maxLayouts))
        top.stop) := by
  -- from the first template upwards; each layer uses up one of the layouts that are left
  induction h generalizing left with
  | @last below? w l hl hstart =>
    have hstarted : l.start.signals.isCancelled token = false := (hl.extends hn).free hfree
    refine ⟨fun hp _ => hl.gives_ascend hstart hstarted ?_, fun hp hlen =>
      hl.gives_ascend hstart hstarted ?_⟩
    · rw [hp]
      cases left <;> exact gives_pure.mpr ⟨rfl, rfl⟩
    · obtain ⟨t, ht⟩ := Option.isSome_iff_exists.mp hp
      obtain rfl : left = 0 := by simpa using hlen.symm
      rw [ht]
      exact gives_pure.mpr ⟨rfl, rfl⟩
  | @next below? t w l ls top hl hstart ht h ih =>
    have hstopped : l.stop.signals.isCancelled token = false := (h.extends hn).1.free hfree
    have hstarted : l.start.signals.isCancelled token = false := (hl.extends hn).free hstopped
    obtain ⟨l', ls', rfl, -⟩ := h.head
    have hrest := ih hfree
    cases left with
    | zero => exact ⟨fun _ hlen => by simp at hlen, fun _ hlen => by simp at hlen⟩
    | succ left =>
      refine ⟨fun hp hlen => hl.gives_ascend hstart hstarted ?_, fun hp hlen =>
        hl.gives_ascend hstart hstarted ?_⟩
      · rw [ht, compose_pending]
        exact (hrest left).1 hp (by simpa using hlen)
      · rw [ht, compose_pending]
        exact (hrest left).2 hp (by simpa using hlen)

/-- Rendering a template to a text runs the bodies of the template and of the layouts around it,
once each and in that order, and gives the output of the last one. Beyond the limit it fails, with
no more bodies run than there may be layers. -/
theorem renderText_climbs {depth : Nat} {t : τ} {w : World τ ε} {ls : List (Layer τ ε)}
    {top : Layer τ ε} (h : Climbs lib (renderNested lib depth) token none t w ls top)
    (hfree : top.stop.signals.isCancelled token = false) :
    (pending top.steps = none → ls.length ≤ maxLayouts + 1 →
      (renderText lib depth t token).run.Gives w (.ok top.output) top.stop) ∧
    ((pending top.steps).isSome → ls.length = maxLayouts + 1 →
      (renderText lib depth t token).run.Gives w (.error (.layoutDepthExceeded maxLayouts))
        top.stop) ∧
    (top.stop.log = w.log ++ ls.flatMap fun l => .started l.template :: l.events) ∧
    ∀ i l l', ls[i]? = some l → ls[i + 1]? = some l' →
      Layer.Sees lib (renderNested lib depth) token l l' := by
  have hn : ∀ t token, Attempt.Grows (renderNested lib depth t token) :=
    grows_renderNested lib depth
  have hgives := h.gives_ascend hn hfree maxLayouts
  rw [renderText_eq]
  exact ⟨hgives.1, hgives.2, h.log_eq hn, h.sees hn hfree⟩

/-- A page that sets a layout, and the layout, which writes the output of the page. -/
def framed : Library Bool Unit
  | false =>
    ⟨.html, .perform (.defineSection "side" (.done (.ok ()))) fun _ =>
      .perform (.setLayout true) fun _ =>
      .perform (.writer (.literal "page")) fun _ => .done (.ok ())⟩
  | true =>
    ⟨.html, .perform .renderBody fun
      | .ok e => .perform (.writer (.write (.encoded e))) .done
      | .error e => .done (.error e)⟩

def framedPage : Layer Bool Unit where
  template := false
  steps :=
    [⟨.defineSection "side" (.done (.ok ())), .ok ()⟩, ⟨.setLayout true, .ok ()⟩,
      ⟨.writer (.literal "page"), ()⟩]
  output := "page"
  start := { log := [.started false] }
  stop := { log := [.started false] }

def frame : Layer Bool Unit where
  template := true
  steps := [⟨.renderBody, .ok (.raw "page")⟩, ⟨.writer (.write (.encoded (.raw "page"))), .ok ()⟩]
  output := "page"
  start := { log := [.started false, .started true] }
  stop := { log := [.started false, .started true] }

theorem renderText_climbs_framed :
    Climbs framed (renderNested framed 0) ⟨0⟩ none false {} [framedPage, frame] frame ∧
      (renderText framed 0 false ⟨0⟩).run.Gives {} (.ok "page") frame.stop := by
  have hpage : framedPage.Runs framed (renderNested framed 0) ⟨0⟩ none :=
    ⟨_, .perform rfl (.perform rfl (.perform rfl (.done _ _ _))), rfl⟩
  have hframe : frame.Runs framed (renderNested framed 0) ⟨0⟩ (some (framedPage.left framed ⟨0⟩)) :=
    ⟨_, .perform rfl (.perform rfl (.done _ _ _)), rfl⟩
  have hclimbs :
      Climbs framed (renderNested framed 0) ⟨0⟩ none false {} [framedPage, frame] frame :=
    .next hpage rfl rfl (.last hframe rfl)
  exact ⟨hclimbs, (renderText_climbs hclimbs rfl).1 rfl (by decide)⟩

/-! The other way around: a render that succeeds is a chain of layouts -/

theorem layer_of_gives_execute {below? : Option (Executed τ ε)} {t : τ} {x : Executed τ ε}
    {w w' : World τ ε}
    (h : (execute lib nested t { Context.new (lib t).kind token with input? := below? }).run.Gives
      w.arrive (.ok x) w') :
    ∃ l : Layer τ ε, l.Runs lib nested token below? ∧ l.template = t ∧
      l.start = w.entered l.template ∧ l.stop = w' ∧
      x = { l.left lib token with layout? := pending l.steps } := by
  rcases gives_execute.mp h with ⟨-, hr, -⟩ | ⟨-, result, cx, hbody, hr⟩
  · cases hr
  obtain ⟨ds, htraces⟩ := gives_iff_traces.mp hbody
  cases result with
  | error e => cases hr
  | ok u =>
    cases hr
    let l : Layer τ ε := ⟨t, ds, cx.writer.output, w.entered t, w'⟩
    have hl : l.Runs lib nested token below? := ⟨cx, htraces, rfl⟩
    exact ⟨l, hl, rfl, rfl, rfl, executed_eq htraces⟩

theorem layer_of_gives_ascend {left : Nat} {t : τ} {below? : Option (Executed τ ε)} {s : String}
    {w w' : World τ ε} (h : (ascend lib nested left t token below?).run.Gives w (.ok s) w') :
    ∃ l : Layer τ ε, l.Runs lib nested token below? ∧ l.template = t ∧
      l.start = w.entered l.template ∧
      (compose lib nested left { l.left lib token with layout? := pending l.steps }).run.Gives
        l.stop (.ok s) w' := by
  obtain ⟨_, _, he⟩ | ⟨_, _, hcheck, hrest⟩ := gives_attempt_bind.mp h
  · cases he
  obtain ⟨-, rfl⟩ := gives_check.mp hcheck
  obtain ⟨_, _, he⟩ | ⟨x, w₁, hexecute, hcompose⟩ := gives_attempt_bind.mp hrest
  · cases he
  obtain ⟨l, hl, rfl, hstart, rfl, rfl⟩ := layer_of_gives_execute hexecute
  exact ⟨l, hl, rfl, hstart, hcompose⟩

theorem climbs_of_gives_ascend {left : Nat} {t : τ} {below? : Option (Executed τ ε)} {s : String}
    {w w' : World τ ε} (h : (ascend lib nested left t token below?).run.Gives w (.ok s) w') :
    ∃ ls top, Climbs lib nested token below? t w ls top ∧ pending top.steps = none ∧
      ls.length ≤ left + 1 ∧ top.output = s ∧
      top.stop = w' := by
  induction left generalizing t below? w with
  | zero =>
    obtain ⟨l, hl, rfl, hstart, hcompose⟩ := layer_of_gives_ascend h
    cases hp : pending l.steps with
    | none =>
      rw [hp] at hcompose
      obtain ⟨hs, hw⟩ := gives_pure.mp hcompose
      exact ⟨[l], l, .last hl hstart, hp, Nat.le_refl 1, Except.ok.inj hs, hw⟩
    | some t' =>
      rw [hp] at hcompose
      cases (gives_pure.mp hcompose).1
  | succ left ih =>
    obtain ⟨l, hl, rfl, hstart, hcompose⟩ := layer_of_gives_ascend h
    cases hp : pending l.steps with
    | none =>
      rw [hp] at hcompose
      obtain ⟨hs, hw⟩ := gives_pure.mp hcompose
      exact ⟨[l], l, .last hl hstart, hp, by simp, Except.ok.inj hs, hw⟩
    | some t' =>
      rw [hp, compose_pending] at hcompose
      obtain ⟨ls, top, hclimbs, hnone, hlen, hout, hstop⟩ := ih hcompose
      exact ⟨l :: ls, top, .next hl hstart hp hclimbs, hnone, by simpa using hlen, hout, hstop⟩

/-- A render that succeeds has run a chain of bodies up to one without a
layout, within the limit. -/
theorem climbs_of_gives_renderText {depth : Nat} {t : τ} {s : String} {w w' : World τ ε}
    (h : (renderText lib depth t token).run.Gives w (.ok s) w') :
    ∃ ls top, Climbs lib (renderNested lib depth) token none t w ls top ∧ pending top.steps = none ∧
      ls.length ≤ maxLayouts + 1 ∧ top.output = s ∧ top.stop = w' :=
  climbs_of_gives_ascend h

end

end Templating.Render
