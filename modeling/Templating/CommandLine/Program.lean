import Templating.CommandLine.Arguments
import Templating.CommandLine.Imports
import Templating.Compiler

/-!
The program behind the command line, on any disk: it reads templates and their imports, compiles
them all, and writes the units even if there are errors.
-/

namespace Templating.CommandLine

structure Outcome where
  code : Nat := 0
  stdout : String := ""
  stderr : String := ""
  deriving DecidableEq, Repr, Inhabited

def versionText : String := "stencil 1.0.0\n"

def helpText : String :=
  Text.join "\n" [
    "Compiles stencil templates into Rust source", "",
    "Usage: stencil [OPTIONS] --output <DIR> <TEMPLATE>...", "",
    "Arguments:",
    "  <TEMPLATE>...  Template files to compile", "",
    "Options:",
    "  -o, --output <DIR>",
    "          Output directory ('-' for stdout)",
    "  -n, --namespace <NAMESPACE>",
    "          Root namespace, extended by each template's directories",
    "  -a, --accessibility <ACCESSIBILITY>",
    "          Accessibility of every compiled template [possible values: public, internal]",
    "      --default-accessibility <ACCESSIBILITY>",
    "          Accessibility of templates without their own [possible values: public, internal]",
    "  -e, --edition <EDITION>",
    "          Edition of the crate that includes the generated code [default: 2021] " ++
      "[possible values: 2015, 2018, 2021]",
    "  -b, --base-unit <FILE>",
    "          Rust source declaring additional base templates",
    "      --no-embedded-runtime",
    "          Ignore the runtime's base templates when forwarding constructors",
    "  -r, --root <DIR>",
    "          Project root, where the search for _imports.stencil stops",
    "  -h, --help",
    "          Print help",
    "  -V, --version",
    "          Print version", ""]

variable {m : Type → Type} [Monad m]

def readUnits (disk : Disk m) : List String → ExceptT Failure m (List CodeUnit)
  | [] => pure []
  | path :: paths => do
    let text ← orFail s!"Failed to read base unit: {path}" (disk.read path)
    return ⟨path, text⟩ :: (← readUnits disk paths)

def inputFile (a : Arguments) (root template : Disk.Path) : InputFile :=
  let file := InputFile.ofPath (template.relative root)
  let file := match a.rootNamespace? with
    | some n => file.withRoot n
    | none => file
  { file with accessibility? := a.accessibility? }

def readTemplate (disk : Disk m) (a : Arguments) (root : Disk.Path) (path : String) :
    ExceptT Failure m Request := do
  let step := s!"Failed to read template: {path}"
  let template ← orFail step (disk.canonical path)
  let text ← orFail step (disk.read template.text)
  let imports ← findImports disk root (importDirectories root template)
  return ⟨inputFile a root template, text, imports⟩

/-- Reads all templates but those that are imports. -/
def readTemplates (disk : Disk m) (a : Arguments) (root : Disk.Path) :
    List String → ExceptT Failure m (List Request)
  | [] => pure []
  | path :: paths => do
    if Disk.fileName? path == some importName then readTemplates disk a root paths
    else
      let request ← readTemplate disk a root path
      return request :: (← readTemplates disk a root paths)

def writeUnits (disk : Disk m) (directory : String) : List CompiledUnit → ExceptT Failure m Unit
  | [] => pure ()
  | u :: us => do
    let path := Disk.inside directory u.name
    orFail s!"Failed to open for writing: {path}" (disk.write path u.text)
    writeUnits disk directory us

/-- Puts the units where they belong, and gives what of them goes to the standard output. -/
def deliver (disk : Disk m) (destination : String) (units : List CompiledUnit) :
    ExceptT Failure m String := do
  if destination == "-" then return String.join (units.map (·.text))
  else
    orFail s!"Failed to create directory: {destination}" (disk.makeDirectory destination)
    writeUnits disk destination units
    return ""

def compilerOptions (a : Arguments) (units : List CodeUnit) : Options where
  edition := a.edition
  embedRuntime := a.embedRuntime
  defaultAccessibility? := a.defaultAccessibility?
  units

/-- The exit code of a run that ends because its diagnostics cannot be shown. -/
def abortCode : Nat := 101

def compileAll (disk : Disk m) (a : Arguments) : ExceptT Failure m Outcome := do
  let units ← readUnits disk a.baseUnits
  let place := a.root?.getD "."
  let root ← orFail s!"Failed to read root directory: {place}" (disk.canonical place)
  let requests ← readTemplates disk a root a.templates
  let output := ((Compiler.new (compilerOptions a units)).compile requests).1
  let stdout ← deliver disk a.output output.units
  match Diagnostic.renderAll? output.diagnostics with
  | some report =>
    return {
      code := if Diagnostic.hasErrors output.diagnostics then 1 else 0, stdout, stderr := report }
  | none => return { code := abortCode, stdout }

/-- The whole program. Arguments that it refuses give no output. -/
def program (disk : Disk m) (args : List String) : m Outcome := do
  match Arguments.parse args with
  | .error .refused => return { code := 2 }
  | .error .help => return { stdout := helpText }
  | .error .version => return { stdout := versionText }
  | .ok a =>
    match ← (compileAll disk a).run with
    | .ok outcome => return outcome
    | .error f => return { code := 1, stderr := f.message }

end Templating.CommandLine
