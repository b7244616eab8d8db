import Templating.Page.Statement

/-!
A page ready to be emitted: its namespace, what it uses, its class and what was found wrong on the
way.
-/

namespace Templating.Page

def defaultBase : String := "HtmlTemplate"

def defaultNamespace : String := "templates"

/-- Text of a directive and the place of the directive. -/
structure Declaration where
  text : String
  location : Location
  deriving DecidableEq, Repr, Inhabited

structure Parameter where
  name : String
  type : String
  deriving DecidableEq, Repr, Inhabited

/-- A constructor of the base class that a class offers too. -/
structure Constructor where
  name : String
  parameters : List Parameter
  base : String
  docs : List String
  deriving DecidableEq, Repr, Inhabited

inductive Member where
  | functions (code : Declaration)
  | constructor (c : Constructor)
  deriving DecidableEq, Repr, Inhabited

structure TypeParameter where
  name : String
  constraint? : Option String
  deriving DecidableEq, Repr, Inhabited

structure Modifiers where
  exported : Bool := false
  internal : Bool := false
  extensible : Bool := false
  deriving DecidableEq, Repr, Inhabited

structure MethodModifiers where
  guarded : Bool := false
  override : Bool := false
  async : Bool := false
  deriving DecidableEq, Repr, Inhabited

/-- What a unit defines. -/
structure Definition where
  name : String
  base? : Option Declaration := none
  modifiers : Modifiers := {}
  typeParameters : List TypeParameter := []
  members : List Member := []
  executeModifiers : MethodModifiers := {}
  body : Body := []
  deriving Inhabited

structure Document where
  source : String
  namespaceName : String
  uses : List Declaration := []
  definition : Definition
  diagnostics : List Diagnostic := []
  deriving Inhabited

namespace Modifiers

def visibility (m : Modifiers) : String := if m.exported then "pub" else "pub(crate)"

end Modifiers

namespace Definition

def baseType (c : Definition) : String := (c.base?.map (·.text)).getD defaultBase

def generics (c : Definition) : String :=
  if c.typeParameters.isEmpty then "" else
    "<" ++ Text.join ", " (c.typeParameters.map (·.name)) ++ ">"

/-- A constraint without the words that introduce it. -/
def predicate : List Char → List Char
  | 'w' :: 'h' :: 'e' :: 'r' :: 'e' :: cs => predicate cs
  | cs => Text.trim cs

/-- The constraints of all type parameters, introduced by one word. -/
def whereClause (c : Definition) : String :=
  let predicates := (c.typeParameters.filterMap (·.constraint?)).map fun s =>
    String.ofList (predicate s.toList)
  match predicates.filter (· != "") with
  | [] => ""
  | ps => " where " ++ Text.join ", " ps

end Definition

namespace Document

def segments (d : Document) : List String :=
  ((Text.splitAt (· == '.') d.namespaceName.toList).map String.ofList).filter (· != "")

def unitName (d : Document) : String := d.namespaceName ++ "." ++ d.definition.name ++ ".g.rs"

end Document

end Templating.Page
