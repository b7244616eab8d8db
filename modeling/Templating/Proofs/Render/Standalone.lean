import Templating.Proofs.Render.Mirror

/-! A template inside another is rendered as if on its own: the outer execution gets the text that
this returns, and nothing else of it changes. -/
namespace Templating.Render
variable {τ ε : Type}

def World.paused (w : World τ ε) : World τ ε := { w with arrivals := [] :: w.arrivals }

@[simp] theorem World.arrive_paused (w : World τ ε) : w.paused.arrive = w := rfl

/-- What a writer makes of the outcome of a render: it takes over the text as it is, and the error
without one. -/
def Writer.receive (y : Writer) : Except RenderError String → Except RenderError Unit × Writer
  | .ok s => (.ok (), { y with output := y.output ++ s })
  | .error e => (.error e, y)

section
variable {lib : Library τ ε} {depth : Nat} {t : τ} {token : Token} {y : Writer} {w : World τ ε}

theorem Writer.complete_nested (nested : Nested τ ε) (t : τ) (y : Writer) :
    Writer.complete nested (.nested t y) =
      ((nested t y.token).run >>= fun r => pure (y.receive r)) := by
  refine congrArg ((nested t y.token).run >>= ·) (funext fun r => ?_)
  cases r <;> rfl

theorem renderText_paused (hfree : w.signals.isCancelled token = false) :
    (renderText lib depth t token).run w.paused = (renderNested lib (depth + 1) t token).run w :=
  attempt_bind_of_ok (check_free hfree)

theorem renderText_cancelled (hcancelled : w.signals.isCancelled token = true) :
    (renderText lib depth t token).run w.paused = .ready (.error (.cancelled token)) w :=
  check_bind_cancelled hcancelled

theorem renderNested_cancelled (hcancelled : w.signals.isCancelled token = true) :
    (renderNested lib (depth + 1) t token).run w = .ready (.error (.cancelled token)) w.arrive := by
  have hexecute : (execute lib (renderNested lib depth) t (.new (lib t).kind token)).run w =
      .ready (.error (.cancelled token)) w.arrive :=
        check_bind_cancelled (cancelled_arrive hcancelled)
  exact bind_of_ready hexecute

end

/-! The sink -/

def Poll.KeepsSink {α : Type} (s : Sink) : Poll (World τ ε) α → Prop
  | .ready _ w => w.sink = s
  | .pending w resume => w.sink = s ∧ (resume w).KeepsSink s
  | .endless => True

def Task.KeepsSink {α : Type} (t : Run τ ε α) : Prop := ∀ w, (t w).KeepsSink w.sink

theorem Poll.KeepsSink.bind {α β : Type} {s : Sink} {p : Poll (World τ ε) α} {f : α → Run τ ε β}
    (hp : p.KeepsSink s)
    (hf : ∀ a w, p.finish = some (a, w) → (f a).KeepsSink) : (p.bind f).KeepsSink s := by
  induction p with
  | ready a w =>
    have hsink : w.sink = s := hp
    rw [← hsink]
    exact hf a w rfl w
  | pending w resume ih => exact ⟨hp.1, ih w hp.2 hf⟩
  | endless => trivial

theorem closed_keepsSink : Closed (τ := τ) (ε := ε) Task.KeepsSink := by
  refine ⟨fun _ _ => rfl, fun ht hf w => (ht w).bind fun a w' => hf a w w', fun _ w =>
    w.arrive_sink, fun _ _ => rfl,
    fun _ _ => rfl, fun _ => ⟨rfl, rfl⟩, fun _ => trivial⟩

/-! Writing a template -/

def Context.receive (cx : Context τ ε) (r : Except RenderError String) :
    Except RenderError Unit × Context τ ε :=
  ((cx.writer.receive r).1, { cx with writer := (cx.writer.receive r).2 })

/-- To write the template is to render it on its own, step by step, and to receive the outcome. A
token that is cancelled already ends either at once, though not at the same look at it. The sink is
left alone. -/
structure Standalone {σ : Type} (lib : Library τ ε) (depth : Nat) (t : τ) (token : Token)
    (write : Run τ ε (Except RenderError Unit × σ))
    (receive : Except RenderError String → Except RenderError Unit × σ) :
    Prop where
  alone : ∀ w, w.signals.isCancelled token = false →
    write w = ((renderText lib depth t token).run >>= fun r => pure (receive r)) w.paused
  cancelled : ∀ w, w.signals.isCancelled token = true →
    (renderText lib depth t token).run w.paused = .ready (.error (.cancelled token)) w ∧
      write w = .ready (receive (.error (.cancelled token))) w.arrive
  sink : write.KeepsSink

theorem Writer.standalone (lib : Library τ ε) (depth : Nat) (t : τ) (y : Writer) :
    Standalone lib depth t y.token (y.perform (renderNested lib (depth + 1)) (.write (.template t)))
      y.receive := by
  have hwrite : y.perform (renderNested lib (depth + 1)) (.write (.template t)) =
      ((renderNested lib (depth + 1) t y.token).run >>= fun r => pure (y.receive r)) :=
        Writer.complete_nested _ t y
  refine ⟨fun w hfree => ?alone, fun w hcancelled =>
    ⟨renderText_cancelled hcancelled, ?cancelled⟩, ?sink⟩
  case alone =>
    rw [hwrite]
    show ((renderNested lib (depth + 1) t y.token).run w).bind _ =
      ((renderText lib depth t y.token).run w.paused).bind _
    rw [renderText_paused hfree]
  case cancelled =>
    rw [hwrite, bind_of_ready (renderNested_cancelled hcancelled)]
    rfl
  case sink => exact closed_keepsSink.writer (closed_keepsSink.renderNested lib (depth + 1)) _ y

theorem Standalone.within {σ ρ : Type} {lib : Library τ ε} {depth : Nat} {t : τ} {token : Token}
    {write : Run τ ε (Except RenderError Unit × σ)} {receive : Except RenderError String →
      Except RenderError Unit × σ}
    (h : Standalone lib depth t token write receive) (rest : σ → ρ) :
    Standalone lib depth t token (write >>= fun o => pure (o.1, rest o.2)) fun r =>
      ((receive r).1, rest (receive r).2) := by
  refine ⟨fun w hfree => ?alone, fun w hcancelled =>
    ⟨(h.cancelled w hcancelled).1, ?cancelled⟩, ?sink⟩
  case alone =>
    show (write w).bind _ = _
    rw [h.alone w hfree]
    refine congrFun (?_ : (_ >>= _ : Run τ ε _) = _) w.paused
    simp only [bind_assoc, pure_bind]
  case cancelled =>
    rw [bind_of_ready (h.cancelled w hcancelled).2]
    rfl
  case sink => exact closed_keepsSink.bind h.sink fun _ _ _ _ => closed_keepsSink.pure _

/-- A template that is written, by a body or by a section and also inside an attribute, is rendered
as on its own under the writer's token. Nothing changes but the output, which is followed by the
text that the render returns, whatever the kinds of content, or stays as it was if the render fails.
A part of an attribute has its own text written first. -/
theorem nested_standalone (lib : Library τ ε) (depth : Nat) (t : τ) :
    (∀ cx : Context τ ε, Standalone lib depth t cx.writer.token
      (cx.perform (renderNested lib (depth + 1)) (.writer (.write (.template t)))) cx.receive) ∧
    (∀ y : Writer,
      Standalone lib depth t y.token
        (y.perform (renderNested lib (depth + 1)) (.write (.template t))) y.receive) ∧
    ∀ (y : Writer) (a : OpenAttribute) (lead : String) (literal : Bool), y.attribute? = some a →
      a.suppressed = false →
      y.perform (renderNested lib (depth + 1)) (.part lead (.template t) literal) =
        ((if a.count == 1 then y.literal a.opening else y).literal lead).perform
          (renderNested lib (depth + 1))
          (.write (.template t)) := by
  refine ⟨fun cx => ?body, Writer.standalone lib depth t, fun y a lead literal ha hopen => ?part⟩
  case body =>
    have hwithin := (cx.writer.standalone lib depth t).within fun y => { cx with writer := y }
    exact hwithin
  case part =>
    show Writer.complete _ (y.part lead (.template t) literal) = _
    have hpart : y.part lead (.template t) literal =
        .nested t ((if a.count == 1 then y.literal a.opening else y).literal lead) := by
      simp only [Writer.part, ha, hopen]
      by_cases hcount : a.count = 1
      · simp [hcount, Writer.followPart, Writer.write]
      · simp [hcount, Writer.followPart, Writer.write]
    rw [hpart]
    rfl

def note : Library Unit Unit :=
  fun _ => { kind := .text, body := .perform (.writer (.write (.text "<i>"))) fun r => .done r }

def titled : Writer :=
  { kind := .html, token := ⟨0⟩, output := "<p",
    attribute? := some { name := "title", opening := " title=", closing := "", count := 1 } }

/-- The note is not encoded again, be it written or a part of the attribute. -/
theorem nested_standalone_note :
    titled.perform (renderNested note 1) (.write (.template ())) {} =
        .ready (.ok (), { titled with output := "<p<i>" }) { log := [.started ()] } ∧
      titled.perform (renderNested note 1) (.part "" (.template ()) false) {} =
        .ready (.ok (), { titled with output := "<p title=<i>" }) { log := [.started ()] } := by
  obtain ⟨-, hwriter, hpart⟩ := nested_standalone note 0 ()
  have hopened : ({ titled with output := "<p title=" } : Writer).perform (renderNested note 1)
    (.write (.template ())) {} =
      .ready (.ok (), { titled with output := "<p title=<i>" }) { log := [.started ()] } :=
        (hwriter _).alone {} rfl
  refine ⟨(hwriter titled).alone {} rfl, ?_⟩
  rw [hpart titled _ "" false rfl rfl]
  exact hopened

end Templating.Render
