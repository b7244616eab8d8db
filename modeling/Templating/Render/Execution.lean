import Templating.Render.Template
import Templating.Render.World
import Templating.Text.Folding

/-!
Execution of bodies. Each body runs in a context of its own. What it leaves behind, its output and
its sections, is what its layout can ask for.
-/

namespace Templating.Render

variable {τ ε α : Type}

/-- Renders a template inside another, under the other's token. -/
abbrev Nested (τ ε : Type) := τ → Token → Attempt τ ε String

def Program.run {S : Signature} {σ : Type} (handle : (op : S.Op) → σ → Run τ ε (S.Reply op × σ)) :
    Program S α → σ → Run τ ε (α × σ)
  | .done a, s => pure (a, s)
  | .perform op next, s => do
    let (r, s) ← handle op s
    (next r).run handle s

namespace Writer

/-- Writes the output of a template that a value stands for. A template
that fails leaves nothing. -/
def complete (nested : Nested τ ε) : Written τ → Run τ ε (Except RenderError Unit × Writer)
  | .done r w => pure (r, w)
  | .nested t w => do
    match ← (nested t w.token).run with
    | .ok s => pure (.ok (), w.literal s)
    | .error e => pure (.error e, w)

def perform (nested : Nested τ ε) : (op : WriterOp τ ε) → Writer → Run τ ε (op.Reply × Writer)
  | .literal s, w => pure ((), w.literal s)
  | .write v, w => complete nested (w.write v)
  | .beginAttribute name opening closing count, w =>
    pure (w.beginAttribute name opening closing count)
  | .part lead v literal, w => complete nested (w.part lead v literal)
  | .endAttribute, w => pure w.endAttribute
  | .output, w => pure (w.output, w)
  | .kind, w => pure (w.kind, w)
  | .cancel, w => do
    World.cancel w.token
    pure ((), w)
  | .check, w => do pure (← (World.check w.token).run, w)
  | .suspend, w => do
    Task.suspend
    pure ((), w)
  | .report e, w => do
    World.record (.reported e)
    pure ((), w)

end Writer

/-- A section by name. It has no body any more once it was rendered. -/
structure Section (τ ε : Type) where
  name : String
  body? : Option (SectionBody τ ε)

namespace Section

def isCalled (name : String) (s : Section τ ε) : Bool := Text.sameFolded s.name name

end Section

/-- What a body leaves behind. -/
structure Executed (τ ε : Type) where
  output : String
  sections : List (Section τ ε)
  layout? : Option τ
  kind : ContentKind
  token : Token

namespace Executed

def isSectionDefined (x : Executed τ ε) (name : String) : Bool := x.sections.any (·.isCalled name)

def spend (x : Executed τ ε) (name : String) : Executed τ ε :=
  { x with sections := x.sections.map fun s =>
    if s.isCalled name then { s with body? := none } else s }

def runSection (nested : Nested τ ε) (x : Executed τ ε) (s : Section τ ε) (body : SectionBody τ ε) :
    Attempt τ ε String := do
  World.check x.token
  (World.record (.sectionStarted s.name) : Run τ ε Unit)
  let (r, w) ← (body.run (Writer.perform nested) { kind := x.kind, token := x.token } : Run τ ε _)
  ExceptT.mk (pure (r.map fun _ => w.output))

/-- What a section writes; none if it is not defined. No section is rendered twice,
even one that failed. -/
def renderSection (nested : Nested τ ε) (x : Executed τ ε) (name : String) :
    Run τ ε (Except RenderError (Option String) × Executed τ ε) := do
  match x.sections.find? (·.isCalled name) with
  | none => pure (.ok none, x)
  | some s =>
    match s.body? with
    | none => pure (.error (.sectionAlreadyRendered name), x)
    | some body =>
      let r ← (runSection nested x s body).run
      pure (r.map some, x.spend name)

end Executed

structure Context (τ ε : Type) where
  writer : Writer
  sections : List (Section τ ε) := []
  layout? : Option τ := none
  /-- What the body left behind whose layout this is. -/
  input? : Option (Executed τ ε) := none
  /-- Whether output may go to the sink before the body ends, and whether some has. -/
  direct : Bool := false
  flushed : Bool := false

namespace Context

def new (kind : ContentKind) (token : Token) : Context τ ε := { writer := { kind, token } }

def defineSection (cx : Context τ ε) (name : String) (body : SectionBody τ ε) :
    Except RenderError Unit × Context τ ε :=
  if cx.sections.any (·.isCalled name) then (.error (.sectionRedefined name), cx)
  else (.ok (), { cx with sections := cx.sections ++ [⟨name, some body⟩] })

def setLayout (cx : Context τ ε) (t : τ) : Except RenderError Unit × Context τ ε :=
  if cx.flushed then (.error .layoutAfterFlush, cx) else (.ok (), { cx with layout? := some t })

def renderBody (cx : Context τ ε) : Except RenderError Encoded :=
  match cx.input? with
  | none => .error (.notInLayout "render_body")
  | some x => .ok (.raw x.output)

def isSectionDefined (cx : Context τ ε) (name : String) : Except RenderError Bool :=
  match cx.input? with
  | none => .error (.notInLayout "is_section_defined")
  | some x => .ok (x.isSectionDefined name)

def answer (name : String) (required : Bool) : Option String → Except RenderError Encoded
  | some s => .ok (.raw s)
  | none => if required then .error (.sectionNotDefined name) else .ok {}

def renderSection (nested : Nested τ ε) (cx : Context τ ε) (name : String) (required : Bool) :
    Run τ ε (Except RenderError Encoded × Context τ ε) := do
  match ← (World.check cx.writer.token).run with
  | .error e => pure (.error e, cx)
  | .ok () =>
    match cx.input? with
    | none => pure (.error (.notInLayout "render_section"), cx)
    | some x => do
      let (r, x) ← x.renderSection nested name
      pure (r.bind (answer name required), { cx with input? := some x })

/-- Hands the output so far to the sink, if the context has it. Output that the
sink refuses is lost. -/
def flush (cx : Context τ ε) : Run τ ε (Except RenderError Unit × Context τ ε) := do
  if cx.layout?.isSome then pure (.error .flushWithLayout, cx)
  else if !cx.direct then pure (.ok (), cx)
  else
    let r ← (World.emit cx.writer.output).run
    pure (r, { cx with writer := { cx.writer with output := "" }, flushed := cx.flushed || r.isOk })

def perform (nested : Nested τ ε) :
    (op : BodyOp τ ε) → Context τ ε → Run τ ε (op.Reply × Context τ ε)
  | .writer op, cx => do
    let (r, w) ← cx.writer.perform nested op
    pure (r, { cx with writer := w })
  | .setLayout t, cx => pure (cx.setLayout t)
  | .defineSection name body, cx => pure (cx.defineSection name body)
  | .renderBody, cx => pure (cx.renderBody, cx)
  | .renderSection name required, cx => cx.renderSection nested name required
  | .isSectionDefined name, cx => pure (cx.isSectionDefined name, cx)
  | .flush, cx => cx.flush

def executed (cx : Context τ ε) : Executed τ ε :=
  ⟨cx.writer.output, cx.sections, cx.layout?, cx.writer.kind, cx.writer.token⟩

end Context

end Templating.Render
