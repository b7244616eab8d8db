import Templating.Diagnostic
import Templating.Directive

/-!
The tree that a template is read as. Every node knows the bytes it
was read from. -/

namespace Templating.Markup

/-- A head and what it governs: a branch under its condition, an arm under its pattern. -/
structure Clause (α : Type) where
  head : String
  body : List α
  deriving Repr, Inhabited

inductive Content where
  | literal (text : String)
  | expression (code : String)
  deriving DecidableEq, Repr, Inhabited

/-- One part of an attribute's value; blanks before an expression belong to it. -/
structure Part where
  lead : String
  content : Content
  deriving DecidableEq, Repr, Inhabited

/-- An attribute whose value has an expression in it, with the text around the value. -/
structure Attribute where
  name : String
  opening : String
  closing : String
  parts : List (Located Part)
  deriving DecidableEq, Repr, Inhabited

structure DirectiveToken where
  kind : TokenKind
  text : String
  deriving DecidableEq, Repr, Inhabited

inductive DirectiveBody (α : Type) where
  | code (code : Located String)
  | markup (nodes : List α)
  deriving Repr, Inhabited

/-- A use of a directive, with the faults found in it. -/
structure DirectiveUse (α : Type) where
  keyword : String
  tokens : List (Located DirectiveToken)
  body? : Option (DirectiveBody α)
  faults : List Fault
  deriving Repr, Inhabited

inductive Node where
  | markup (text : String)
  | comment
  | expression (code : String)
  | code (code : String)
  | control (branches : List (Clause (Located Node)))
  | choice (scrutinee : String) (arms : List (Clause (Located Node)))
  | attribute (a : Attribute)
  | directive (d : DirectiveUse (Located Node))
  deriving Repr, Inhabited

abbrev Nodes := List (Located Node)

namespace DirectiveUse

def token? {α : Type} (d : DirectiveUse α) (k : TokenKind) : Option String :=
  (d.tokens.find? (·.val.kind == k)).map (·.val.text)

def sound {α : Type} (d : DirectiveUse α) : Bool := d.faults.isEmpty

end DirectiveUse

mutual

def Node.faults : Node → List Fault
  | .control branches => clauseFaults branches
  | .choice _ arms => clauseFaults arms
  | .directive ⟨_, _, some (.markup nodes), fs⟩ => fs ++ nodeFaults nodes
  | .directive ⟨_, _, _, fs⟩ => fs
  | _ => []

def nodeFaults : Nodes → List Fault
  | [] => []
  | ⟨n, _⟩ :: ns => n.faults ++ nodeFaults ns

def clauseFaults : List (Clause (Located Node)) → List Fault
  | [] => []
  | ⟨_, body⟩ :: cs => nodeFaults body ++ clauseFaults cs

end

/-- A template as read, with the faults that belong to no directive. -/
structure Tree where
  source : Source
  nodes : Nodes
  faults : List Fault
  deriving Inhabited

namespace Tree

def directives (t : Tree) : List (Located (DirectiveUse (Located Node))) :=
  t.nodes.filterMap fun ⟨n, s⟩ =>
    match n with
    | .directive d => some ⟨d, s⟩
    | _ => none

def diagnostics (t : Tree) : List Diagnostic := t.faults.map (·.inSource t.source)

def allDiagnostics (t : Tree) : List Diagnostic :=
  (t.faults ++ nodeFaults t.nodes).map (·.inSource t.source)

end Tree

end Templating.Markup
