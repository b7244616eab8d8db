import Templating.Naming

/-!
What a compilation is given: options that hold for all files, and for each file its path, its text
and what it imports.
-/

namespace Templating

inductive OptionError where
  | accessibility (text : String)
  | edition (text : String)
  deriving DecidableEq, Repr

def OptionError.message : OptionError → String
  | accessibility s => s!"Unknown accessibility `{s}`, expected `public` or `internal`"
  | edition s => s!"Unknown edition `{s}`, expected 2015, 2018 or 2021"

/-- Who may use a generated class. -/
inductive Accessibility where
  | exported
  | internal
  deriving DecidableEq, Repr, Inhabited

namespace Accessibility

def text : Accessibility → String
  | .exported => "public"
  | .internal => "internal"

def parse : String → Except OptionError Accessibility
  | "public" => .ok .exported
  | "pub" => .ok .exported
  | "internal" => .ok .internal
  | "crate" => .ok .internal
  | s => .error (.accessibility s)

end Accessibility

/-- Editions of the generated code, in order. -/
inductive Edition where
  | e2015
  | e2018
  | e2021
  deriving DecidableEq, Repr, Inhabited

namespace Edition

def text : Edition → String
  | e2015 => "2015"
  | e2018 => "2018"
  | e2021 => "2021"

def parse : String → Except OptionError Edition
  | "2015" => .ok e2015
  | "2018" => .ok e2018
  | "2021" => .ok e2021
  | s => .error (.edition s)

/-- Whether generated code can be of this edition; the first is too old. -/
def supported : Edition → Bool
  | e2015 => false
  | _ => true

end Edition

/-- A unit of code beside the templates, in which base types are looked for. -/
structure CodeUnit where
  name : String
  text : String
  deriving DecidableEq, Repr, Inhabited

structure Options where
  edition : Edition := .e2021
  /-- Whether the base types that come with the library are units too. -/
  embedRuntime : Bool := true
  defaultAccessibility? : Option Accessibility := none
  units : List CodeUnit := []
  deriving DecidableEq, Repr, Inhabited

structure InputFile where
  path : String
  hint? : Option String := none
  accessibility? : Option Accessibility := none
  deriving DecidableEq, Repr, Inhabited

namespace InputFile

def ofPath (path : String) : InputFile := { path := Naming.slashed path }

def withRoot (f : InputFile) (root : String) : InputFile :=
  { f with hint? := some (Naming.ofPath root f.path) }

def stem (f : InputFile) : String := Naming.stem f.path

def className (f : InputFile) : String := Naming.sanitize f.stem

end InputFile

/-- A file whose directives a template shares. -/
structure Import where
  path : String
  text : String
  deriving DecidableEq, Repr, Inhabited

/-- One template to compile; its imports stand outermost first. -/
structure Request where
  file : InputFile
  text : String
  imports : List Import := []
  deriving DecidableEq, Repr, Inhabited

end Templating
