import Templating.Markup.Node

/-!
Pieces of markup in the order they are read, and the nodes they make: texts in a row become one
markup node.
-/

namespace Templating.Markup

open Text (byteSize isPad)

inductive Piece where
  /-- Literal text that was read at an offset. -/
  | text (cs : List Char) (offset : Nat)
  /-- A node; one that has its line to itself takes the spaces and tabs before it. -/
  | node (n : Node) (span : Span) (aloneOnLine : Bool)
  deriving Inhabited

/-- Markup in the making, its last character first, and the bytes it covers. -/
structure Run where
  chars : List Char := []
  start : Nat := 0
  stop : Nat := 0

namespace Run

def add (r : Run) (cs : List Char) (offset : Nat) : Run where
  chars := cs.reverse ++ r.chars
  start := if r.chars.isEmpty then offset else r.start
  stop := offset + byteSize cs

def trimPads (r : Run) : Run := { r with chars := r.chars.dropWhile isPad }

def nodes (r : Run) : Nodes :=
  if r.chars.isEmpty then [] else [⟨.markup (.ofList r.chars.reverse), r.start, max r.stop r.start⟩]

end Run

def gatherFrom : Run → List Piece → Nodes
  | r, [] => r.nodes
  | r, .text cs offset :: ps => gatherFrom (r.add cs offset) ps
  | r, .node n span alone :: ps =>
    (if alone then r.trimPads else r).nodes ++ ⟨n, span⟩ :: gatherFrom {} ps

/-- The nodes that pieces make. -/
def gather (ps : List Piece) : Nodes := gatherFrom {} ps

end Templating.Markup
