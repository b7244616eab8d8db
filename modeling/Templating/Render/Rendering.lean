import Templating.Render.Execution

/-!
Renders: a template is executed, then its layout around what it left behind, and so on to an
execution without a layout. Templates nest to any depth; to be total, a render is told how deep they
may, and goes on without end beyond that.
-/

namespace Templating.Render

variable {τ ε α : Type}

def maxLayouts : Nat := 32

def execute (lib : Library τ ε) (nested : Nested τ ε) (t : τ) (cx : Context τ ε) :
    Attempt τ ε (Executed τ ε) := do
  World.check cx.writer.token
  (World.record (.started t) : Run τ ε Unit)
  let (r, cx) ← ((lib t).body.run (Context.perform nested) cx : Run τ ε _)
  ExceptT.mk (pure (r.map fun _ => cx.executed))

/-- Executes the layouts around what a body left behind, at most so many. -/
def compose (lib : Library τ ε) (nested : Nested τ ε) : Nat → Executed τ ε → Attempt τ ε String
  | left, x =>
    match x.layout? with
    | none => pure x.output
    | some t =>
      match left with
      | 0 => throw (.layoutDepthExceeded maxLayouts)
      | left + 1 => do
        World.check x.token
        let y ← execute lib nested t
          { Context.new (lib t).kind x.token with input? := some { x with layout? := none } }
        compose lib nested left y

def renderIn (lib : Library τ ε) (nested : Nested τ ε) (t : τ) (cx : Context τ ε) :
    Attempt τ ε String := do
  compose lib nested maxLayouts (← execute lib nested t cx)

/-- Renders a template inside another, and templates inside that, to a depth. -/
def renderNested (lib : Library τ ε) : Nat → Nested τ ε
  | 0 => fun _ _ => Task.endless
  | depth + 1 => fun t token => renderIn lib (renderNested lib depth) t (.new (lib t).kind token)

def renderText (lib : Library τ ε) (depth : Nat) (t : τ) (token : Token) : Attempt τ ε String := do
  World.check token
  renderIn lib (renderNested lib depth) t (.new (lib t).kind token)

/-- Renders a template to the sink, to which its body may hand over output before it ends. -/
def renderToSink (lib : Library τ ε) (depth : Nat) (t : τ) (token : Token) : Attempt τ ε Unit := do
  World.check token
  let output ← renderIn lib (renderNested lib depth) t
    { Context.new (lib t).kind token with direct := true }
  World.emit output

def await (r : Attempt τ ε α) (w : World τ ε) : Option (Except RenderError α × World τ ε) :=
  (r w).finish

/-- Drives a render from code that does not wait for it. It is resumed once; if it has stopped then,
it fails inside a runtime, and outside of one what is left of it goes to an executor that waits. -/
def drive (inRuntime : Bool) (r : Attempt τ ε α) (w : World τ ε) :
    Option (Except RenderError α × World τ ε) :=
  match r w with
  | .ready a w => some (a, w)
  | .pending w resume =>
    if inRuntime then some (.error .suspendedInRuntime, w) else (resume w).finish
  | .endless => none

/-- A render that may not wait for others: it fails where it first stops. -/
def immediately (r : Attempt τ ε α) : World τ ε → Option (Except RenderError α × World τ ε) :=
  drive true r

end Templating.Render
