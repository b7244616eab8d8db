/-!
Signals by which a render is asked to stop. A token stands for a signal; tokens of one signal are
the same token.
-/

namespace Templating.Render

structure Token where
  signal : Nat
  deriving DecidableEq, Repr, Inhabited

/-- How many signals there are, and which of them have been set off. -/
structure Signals where
  made : Nat := 0
  cancelled : List Token := []
  deriving DecidableEq, Repr, Inhabited

namespace Signals

def new (s : Signals) : Token × Signals := (⟨s.made⟩, { s with made := s.made + 1 })

def cancel (s : Signals) (t : Token) : Signals := { s with cancelled := t :: s.cancelled }

def isCancelled (s : Signals) (t : Token) : Bool := s.cancelled.contains t

end Signals

end Templating.Render
