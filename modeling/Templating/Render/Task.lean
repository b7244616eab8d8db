/-!
Tasks: computations over a world that may stop on the way for others to go on, and resume in the
world they then find.
-/

namespace Templating.Render

/-- How far a task has come: it has a result, or waits to be resumed. Nesting
without end has neither. -/
inductive Poll (ω α : Type) where
  | ready (a : α) (w : ω)
  | pending (w : ω) (resume : ω → Poll ω α)
  | endless

def Task (ω α : Type) := ω → Poll ω α

namespace Poll

variable {ω α β : Type}

def bind (f : α → Task ω β) : Poll ω α → Poll ω β
  | ready a w => f a w
  | pending w resume => pending w fun w => (resume w).bind f
  | endless => endless

def finish : Poll ω α → Option (α × ω)
  | ready a w => some (a, w)
  | pending w resume => (resume w).finish
  | endless => none

/-- Goes on in turns with another task, whose turn is next. A task that has ended leaves the rest to
the other. -/
def alternate (other : Task ω β) : Poll ω α → Option ((α × β) × ω)
  | ready a w => (other w).finish.map fun (b, w) => ((a, b), w)
  | pending w resume =>
    match other w with
    | ready b w => (resume w).finish.map fun (a, w) => ((a, b), w)
    | pending w rest => (resume w).alternate rest
    | endless => none
  | endless => none

end Poll

namespace Task

variable {ω α β : Type}

instance : Monad (Task ω) where
  pure a := fun w => .ready a w
  bind t f := fun w => (t w).bind f

def suspend : Task ω Unit := fun w => .pending w (.ready ())

def endless : Task ω α := fun _ => .endless

def get : Task ω ω := fun w => .ready w w

def modify (f : ω → ω) : Task ω Unit := fun w => .ready () (f w)

def both (s : Task ω α) (t : Task ω β) (w : ω) : Option ((α × β) × ω) := (s w).alternate t

end Task

end Templating.Render
