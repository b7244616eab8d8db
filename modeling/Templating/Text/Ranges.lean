/-!
Sets of characters given by ranges of code points.
-/

namespace Templating.Text

/-- Closed ranges of code points, in increasing order and disjoint. -/
abbrev Ranges := Array (Nat × Nat)

def Ranges.holds (r : Ranges) (c : Char) : Bool :=
  r.any fun (first, last) => first ≤ c.toNat && c.toNat ≤ last

end Templating.Text
