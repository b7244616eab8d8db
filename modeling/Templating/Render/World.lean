import Templating.Render.Error
import Templating.Render.Task

/-!
The world in which renders take place: signals, what others do to them, the sink, and what has
happened.
-/

namespace Templating.Render

/-- Where output goes, in the pieces in which it came. It refuses all further pieces
once it is full. -/
structure Sink where
  chunks : List String := []
  capacity? : Option Nat := none
  deriving DecidableEq, Repr, Inhabited

def Sink.write? (s : Sink) (chunk : String) : Option Sink :=
  if s.capacity?.any (· ≤ s.chunks.length) then none else
    some { s with chunks := s.chunks ++ [chunk] }

/-- What happens in a render: bodies start, of templates and of sections, and
report what they like. -/
inductive Event (τ ε : Type) where
  | started (t : τ)
  | sectionStarted (name : String)
  | reported (e : ε)

structure World (τ ε : Type) where
  signals : Signals := {}
  /-- What others cancel before each look at a signal. -/
  arrivals : List (List Token) := []
  sink : Sink := {}
  log : List (Event τ ε) := []

abbrev Run (τ ε α : Type) := Task (World τ ε) α

/-- A computation of a render, which may fail. -/
abbrev Attempt (τ ε α : Type) := ExceptT RenderError (Task (World τ ε)) α

namespace World

variable {τ ε : Type}

def arrive (w : World τ ε) : World τ ε :=
  match w.arrivals with
  | [] => w
  | ts :: rest => { w with signals := ts.foldl Signals.cancel w.signals, arrivals := rest }

def record (e : Event τ ε) : Run τ ε Unit := Task.modify fun w => { w with log := w.log ++ [e] }

def cancel (t : Token) : Run τ ε Unit :=
  Task.modify fun w => { w with signals := w.signals.cancel t }

def check (t : Token) : Attempt τ ε Unit := fun w => .ready (w.arrive.signals.check t) w.arrive

def emit (chunk : String) : Attempt τ ε Unit := fun w =>
  match w.sink.write? chunk with
  | some sink => .ready (.ok ()) { w with sink }
  | none => .ready (.error .sink) w

def reports (w : World τ ε) : List ε :=
  w.log.filterMap fun
    | .reported e => some e
    | _ => none

end World

end Templating.Render
