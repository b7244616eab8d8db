import Templating.Base.Ambient
import Templating.Page.Document

/-!
Constructors that a page takes over from its base. A constructor is taken over if its block fits the
arguments of the base, with those arguments in place of the block's parameters.
-/

namespace Templating.Base

open Code (Pieces Piece)
open Page (Member)

/-- The arguments that a base type is used with: those given, then the defaults; none
if one is lacking. -/
def arguments? : List Code.TypeParameter → List Pieces → Option (List Pieces)
  | [], _ => some []
  | _ :: ps, a :: as => (arguments? ps as).map (a :: ·)
  | p :: ps, [] => do
    let d ← p.default?
    let rest ← arguments? ps []
    return d :: rest

/-- The types that a block's parameters stand for, the last given first; none if the block fixes
another type. -/
def bind? : List Binding → List Pieces → Option (List (String × Pieces))
  | [], _ => some []
  | _, [] => some []
  | .parameter n :: bs, a :: as => (bind? bs as).map (· ++ [(n, a)])
  | .concrete t :: bs, a :: as => if t.print == a.print then bind? bs as else none

def substitute (σ : List (String × Pieces)) (ps : Pieces) : Pieces :=
  ps.flatMap fun
    | .typeName n => ((σ.find? (·.1 == n)).map (·.2)).getD [.typeName n]
    | p => [p]

def reserved : String := "from_base"

def forwarded? (base : String) (arguments : List Pieces) (c : BaseConstructor) : Option Member := do
  guard (c.marked && c.name != reserved)
  let σ ← bind? c.bindings arguments
  return .constructor ⟨c.name, c.parameters.map fun (n, t) => ⟨n, (substitute σ t).print⟩,
    base, c.docs⟩

def forward (d : Page.Document) (resolve : Resolver) : Except Crash (List Member) :=
  match d.definition.base? with
  | none => .ok []
  | some base =>
    match (Code.type? base.text).bind (·.path?) with
    | none => .ok []
    | some p =>
      if p.qualified then .ok [] else do
      match ← resolve p.name with
      | none => return []
      | some t =>
        match arguments? t.parameters p.arguments with
        | none => return []
        | some as => return t.constructors.filterMap (forwarded? base.text as)

end Templating.Base
