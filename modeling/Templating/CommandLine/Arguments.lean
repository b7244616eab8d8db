import Templating.Options

/-!
The command line's arguments. Templates may stand anywhere; a switch that takes a value takes it
from the rest of its own argument or from the next one, and only base units may be named more than
once.
-/

namespace Templating.CommandLine

inductive Switch where
  | output
  | namespaceName
  | accessibility
  | defaultAccessibility
  | edition
  | baseUnit
  | root
  | bareLibrary
  | help
  | version
  deriving DecidableEq, Repr

namespace Switch

def long? : String → Option Switch
  | "output" => some output
  | "namespace" => some namespaceName
  | "accessibility" => some accessibility
  | "default-accessibility" => some defaultAccessibility
  | "edition" => some edition
  | "base-unit" => some baseUnit
  | "root" => some root
  | "no-embedded-runtime" => some bareLibrary
  | "help" => some help
  | "version" => some version
  | _ => none

def short? : Char → Option Switch
  | 'o' => some output
  | 'n' => some namespaceName
  | 'a' => some accessibility
  | 'e' => some edition
  | 'b' => some baseUnit
  | 'r' => some root
  | 'h' => some help
  | 'V' => some version
  | _ => none

def takesValue : Switch → Bool
  | bareLibrary => false
  | help => false
  | version => false
  | _ => true

end Switch

/-- What is to be compiled, and how. -/
structure Arguments where
  output : String
  templates : List String
  rootNamespace? : Option String := none
  accessibility? : Option Accessibility := none
  defaultAccessibility? : Option Accessibility := none
  edition : Edition := .e2021
  baseUnits : List String := []
  embedRuntime : Bool := true
  root? : Option String := none
  deriving DecidableEq, Repr

/-- Why there is nothing to compile. -/
inductive Stop where
  | refused
  | help
  | version
  deriving DecidableEq, Repr

/-- The arguments read so far. -/
structure Draft where
  output? : Option String := none
  templates : List String := []
  rootNamespace? : Option String := none
  accessibility? : Option Accessibility := none
  defaultAccessibility? : Option Accessibility := none
  edition? : Option Edition := none
  baseUnits : List String := []
  bareLibrary : Bool := false
  root? : Option String := none
  /-- The switch whose value comes next. -/
  pending? : Option Switch := none
  /-- Whether all that comes is a template. -/
  ended : Bool := false
  deriving Inhabited

namespace Draft

def once {α : Type} (old? : Option α) (v : α) : Except Stop (Option α) :=
  if old?.isSome then .error .refused else .ok (some v)

def nonempty (v : String) : Except Stop String := if v == "" then .error .refused else .ok v

def readAccessibility (v : String) : Except Stop Accessibility :=
  match ([.exported, .internal] : List Accessibility).find? (·.text == v) with
  | some a => .ok a
  | none => .error .refused

def readEdition (v : String) : Except Stop Edition :=
  match Edition.parse v with
  | .ok e => .ok e
  | .error _ => .error .refused

def addTemplate (d : Draft) (path : String) : Except Stop Draft := do
  return { d with templates := d.templates ++ [← nonempty path] }

def set (d : Draft) (s : Switch) (v : String) : Except Stop Draft := do
  match s with
  | .output => return { d with output? := ← once d.output? v }
  | .namespaceName => return { d with rootNamespace? := ← once d.rootNamespace? v }
  | .accessibility =>
    return { d with accessibility? := ← once d.accessibility? (← readAccessibility v) }
  | .defaultAccessibility =>
    return { d with
      defaultAccessibility? := ← once d.defaultAccessibility? (← readAccessibility v) }
  | .edition => return { d with edition? := ← once d.edition? (← readEdition v) }
  | .baseUnit => return { d with baseUnits := d.baseUnits ++ [← nonempty v] }
  | .root => return { d with root? := ← once d.root? (← nonempty v) }
  | .bareLibrary | .help | .version => .error .refused

def flag (d : Draft) (s : Switch) : Except Stop Draft :=
  match s with
  | .help => .error .help
  | .version => .error .version
  | .bareLibrary => if d.bareLibrary then .error .refused else .ok { d with bareLibrary := true }
  | s => .ok { d with pending? := some s }

def splitValue (cs : List Char) : List Char × Option (List Char) :=
  (cs.takeWhile (· != '='), (cs.dropWhile (· != '=')).tail?)

def long (d : Draft) (cs : List Char) : Except Stop Draft :=
  let (name, value?) := splitValue cs
  match Switch.long? (.ofList name), value? with
  | none, _ => .error .refused
  | some s, none => d.flag s
  | some s, some v => d.set s (.ofList v)

/-- Switches of one letter. One that takes a value takes what follows its letter,
less an equals sign. -/
def shorts (d : Draft) : List Char → Except Stop Draft
  | [] => .ok d
  | c :: cs =>
    match Switch.short? c with
    | none => .error .refused
    | some s =>
      if s.takesValue then
        match cs with
        | [] => d.flag s
        | '=' :: v => d.set s (.ofList v)
        | v => d.set s (.ofList v)
      else do (← d.flag s).shorts cs

/-- Whether an argument is a value: a lone dash is one. -/
def isValue (arg : String) : Bool := !arg.startsWith "-" || arg == "-"

def read (d : Draft) (arg : String) : Except Stop Draft :=
  if d.ended then d.addTemplate arg
  else
    match d.pending? with
    | some s => if isValue arg then { d with pending? := none }.set s arg else .error .refused
    | none =>
      if isValue arg then d.addTemplate arg
      else
        match arg.toList with
        | ['-', '-'] => .ok { d with ended := true }
        | '-' :: '-' :: cs => d.long cs
        | cs => d.shorts cs.tail

def finish (d : Draft) : Except Stop Arguments :=
  match d.pending?, d.output? with
  | none, some output =>
    if d.templates.isEmpty then .error .refused
    else .ok {
      output, templates := d.templates, rootNamespace? := d.rootNamespace?
      accessibility? := d.accessibility?, defaultAccessibility? := d.defaultAccessibility?
      edition := d.edition?.getD .e2021, baseUnits := d.baseUnits
      embedRuntime := !d.bareLibrary, root? := d.root? }
  | _, _ => .error .refused

end Draft

def Arguments.parse (args : List String) : Except Stop Arguments := do
  (← args.foldlM Draft.read {}).finish

end Templating.CommandLine
