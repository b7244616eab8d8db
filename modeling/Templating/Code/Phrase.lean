import Templating.Code.Reader

/-!
The phrases of code and what reading each gives. A rule reads one phrase with the help of a reader
for every phrase, so the rules do not refer to one another.
-/

namespace Templating.Code

/-- How a path ends: its last name and the types given to it. -/
structure PathEnd where
  /-- Whether the path begins at a type in angle brackets. -/
  qualified : Bool
  /-- Whether the path is one name without a leading colon. -/
  single : Bool
  name : String
  arguments : List Pieces
  deriving DecidableEq, Repr, Inhabited

structure TypeExpr where
  pieces : Pieces
  path? : Option PathEnd := none
  /-- Whether the type may be the first of several bounds. -/
  bound : Bool := false
  deriving DecidableEq, Repr, Inhabited

def TypeExpr.name? (t : TypeExpr) : Option String :=
  match t.pieces with
  | [.typeName n] => some n
  | _ => none

def TypeExpr.asBound (t : TypeExpr) : Pieces :=
  match t.pieces with
  | [.typeName n] => [.word n]
  | ps => ps

structure TypeParameter where
  name : String
  default? : Option Pieces
  deriving DecidableEq, Repr, Inhabited

structure Attribute where
  /-- The last name of its path, and whether the path is that name alone. -/
  name : String
  single : Bool
  /-- The string that it gives its path. -/
  text? : Option String
  deriving Repr, Inhabited

structure Parameter where
  /-- The name that the parameter's pattern binds, if it is no more than a name. -/
  name? : Option String
  type : Pieces
  deriving Repr, Inhabited

/-- A function of an implementation block. -/
structure Function where
  attributes : List Attribute
  exported : Bool
  name : String
  generic : Bool
  receiver : Bool
  parameters : List Parameter
  result? : Option TypeExpr
  deriving Repr, Inhabited

structure Block where
  generics : List TypeParameter
  ofTrait : Bool
  self : TypeExpr
  functions : List Function
  deriving Repr, Inhabited

/-- What matters of an item. -/
inductive Item where
  | typeDefinition (name : String) (parameters : List TypeParameter)
  | block (b : Block)
  | module (items : List Item)
  | other
  deriving Inhabited

/-- Where bounds stand: on a parameter, in the type of a trait's objects, or in a type known by its
bounds alone. -/
inductive BoundPlace where
  | constraint
  | object
  | anonymous
  deriving DecidableEq

inductive Phrase where
  | type (plus : Bool)
  | bound (place : BoundPlace)
  | generics
  | whereClause
  | attributes (inner : Bool)
  | pattern (alternatives : Bool)
  /-- An expression, in which a name before a brace may begin a structure. -/
  | expression (structures : Bool)
  /-- What ends a range: an expression that is neither a range nor an assignment. -/
  | rangeEnd (structures : Bool)
  | block
  | statements
  | item
  | items
  | useTree

@[reducible] def Phrase.Result : Phrase → Type
  | type _ => TypeExpr
  | generics => Pieces × List TypeParameter
  | attributes _ => Pieces × List Attribute
  | item => Item
  | items => List Item
  | _ => Pieces

/-- A reader for every phrase. -/
abbrev Readers := (p : Phrase) → Reader p.Result

end Templating.Code
