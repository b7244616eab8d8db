import Templating.Code.Grammar
import Templating.Options

/-!
Base types and their constructors, looked for in the units of code that
surround the templates. -/

namespace Templating.Base

open Code (Pieces Item Block Function)

/-- What a block of functions says about one parameter of its type: it may leave it
open or fix it. -/
inductive Binding where
  | parameter (name : String)
  | concrete (type : Pieces)
  deriving Repr, Inhabited

structure BaseConstructor where
  name : String
  parameters : List (String × Pieces)
  docs : List String
  /-- Whether templates may offer it as their own. -/
  marked : Bool
  bindings : List Binding
  deriving Repr, Inhabited

structure BaseType where
  parameters : List Code.TypeParameter
  constructors : List BaseConstructor
  deriving Repr, Inhabited

/-- Why a resolver gave up, if it said so. -/
structure Crash where
  reason? : Option String := none
  deriving DecidableEq, Repr, Inhabited

/-- Finds a base type by name. -/
abbrev Resolver := String → Except Crash (Option BaseType)

mutual

/-- Items with those inside modules, which come before the module that holds them. -/
def unfold : Item → List Item
  | .module items => unfoldAll items ++ [.module items]
  | i => [i]

def unfoldAll : List Item → List Item
  | [] => []
  | i :: is => unfold i ++ unfoldAll is

end

/-- The parameters of the type that an item defines under a name. -/
def definition? (name : String) : Item → Option (List Code.TypeParameter)
  | .typeDefinition n ps => if n == name then some ps else none
  | _ => none

/-- What a block of functions of the named type binds; nothing for a block of another type. -/
def bindings? (name : String) (b : Block) : Option (List Binding) :=
  match b.self.path? with
  | some p =>
    if p.qualified || p.name != name then none
    else some (p.arguments.map fun a =>
      match a with
      | [.typeName n] => if b.generics.any (·.name == n) then .parameter n else .concrete a
      | _ => .concrete a)
  | none => none

def returnsSelf (name : String) (f : Function) : Bool :=
  match f.result?.bind (·.path?) with
  | some p => p.name == "Self" || p.name == name
  | none => false

def isConstructor (name : String) (f : Function) : Bool :=
  f.exported && !f.receiver && !f.generic && returnsSelf name f

def constructor (bindings : List Binding) (f : Function) : BaseConstructor where
  name := f.name
  parameters := f.parameters.zipIdx.map fun (p, i) => (p.name?.getD s!"arg{i}", p.type)
  docs := f.attributes.filterMap fun a => if a.single && a.name == "doc" then
    a.text?.map Text.trimmed else none
  marked := f.attributes.any (·.name == "template_constructor")
  bindings

def constructorsOf (name : String) : Item → List BaseConstructor
  | .block b =>
    if b.ofTrait then [] else
    match bindings? name b with
    | some bs => (b.functions.filter (isConstructor name)).map (constructor bs)
    | none => []
  | _ => []

/-- The type that items define under a name: the first definition, and the constructors
of all its blocks. -/
def find? (items : List Item) (name : String) : Option BaseType :=
  (items.findSome? (definition? name)).map fun ps => ⟨ps, items.flatMap (constructorsOf name)⟩

def modelled (name : String) (docs : List String) : List Item :=
  let m : Pieces := [.typeName "M"]
  let self : Code.TypeExpr :=
    { pieces := .word name :: Code.Piece.symbol "<" ++ m ++ Code.Piece.symbol ">"
      path? := some ⟨false, true, name, [m]⟩ }
  let result : Code.TypeExpr :=
    { pieces := [.typeName "Self"], path? := some ⟨false, true, "Self", []⟩ }
  let new : Function :=
    { attributes := docs.map (fun d => ⟨"doc", true, some d⟩) ++
      [⟨"template_constructor", true, none⟩]
      exported := true, name := "new", generic := false, receiver := false
      parameters := [⟨some "model", m⟩]
      result? := some result }
  [.typeDefinition name [⟨"M", some (Code.Piece.enclosed .paren [])⟩],
    .block ⟨[⟨"M", none⟩], false, self, [new]⟩]

def library : List Item :=
  modelled "HtmlTemplate" ["Construye la base con un modelo."] ++ modelled "PlainTextTemplate" []

/-- The items in which the options let base types be looked for; a unit that cannot
be read has none. -/
def items (o : Options) : List Item :=
  (if o.embedRuntime then library else []) ++ o.units.flatMap fun u =>
    unfoldAll ((Code.items? u.text).getD [])

def ambient (o : Options) : Resolver :=
  let is := items o
  fun name => .ok (find? is name)

end Templating.Base
