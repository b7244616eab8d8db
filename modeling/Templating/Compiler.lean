import Templating.Base.Forwarding
import Templating.Markup.Reading
import Templating.Page.Build
import Templating.Unit.Emission

/-!
The compiler. It turns requests into units of code and keeps every result until
the options change. -/

namespace Templating

structure CompiledUnit where
  name : String
  text : String
  deriving DecidableEq, Repr, Inhabited

/-- The result of one request, with its number among all results that the compiler has ever made. -/
structure FileOutput where
  file : InputFile
  unit? : Option CompiledUnit
  diagnostics : List Diagnostic
  serial : Nat
  deriving Inhabited

structure CompileOutput where
  units : List CompiledUnit := []
  diagnostics : List Diagnostic := []
  deriving Inhabited

structure Compiler where
  options : Options
  resolver : Base.Resolver
  cache : List (Request × FileOutput) := []
  made : Nat := 0

def generate (o : Options) (resolve : Base.Resolver) (r : Request) :
    Except Base.Crash (CompiledUnit × List Diagnostic) := do
  let table := DirectiveTable.standard
  let imports := r.imports.map fun i => Markup.Tree.parse ⟨i.path, i.text⟩ table
  let tree := Markup.Tree.parse ⟨r.file.path, r.text⟩ table
  let page := Page.build r.file o table imports tree
  let extra ← Base.forward page resolve
  return (⟨page.unitName, Unit.emit page extra⟩, page.diagnostics)

namespace Compiler

def withResolver (o : Options) (r : Base.Resolver) : Compiler := { options := o, resolver := r }

def new (o : Options) : Compiler := withResolver o (Base.ambient o)

/-- Takes other options; if they differ, results are forgotten and base types
are looked for anew. -/
def setOptions (c : Compiler) (o : Options) : Compiler :=
  if o = c.options then c else { c with options := o, resolver := Base.ambient o, cache := [] }

def cached (c : Compiler) : Nat := c.cache.length

/-- The result of a request, afresh. A crash leaves no unit and one diagnostic
over the whole text. -/
def compute (c : Compiler) (r : Request) : FileOutput :=
  match generate c.options c.resolver r with
  | .ok (unit, ds) => ⟨r.file, some unit, ds, c.made⟩
  | .error crash =>
    let problem := Problem.internal r.file.path (crash.reason?.getD "unknown panic")
    ⟨r.file, none, [⟨problem, some (.whole ⟨r.file.path, r.text⟩), .error⟩], c.made⟩

/-- The result of a request, made before or now. -/
def compileFile (c : Compiler) (r : Request) : FileOutput × Compiler :=
  match c.cache.find? (·.1 == r) with
  | some (_, out) => (out, c)
  | none =>
    let out := c.compute r
    (out, { c with cache := (r, out) :: c.cache, made := c.made + 1 })

def compileAll (c : Compiler) : List Request → CompileOutput × Compiler
  | [] => ({}, c)
  | r :: rs =>
    let (out, c) := c.compileFile r
    let (more, c) := c.compileAll rs
    (⟨out.unit?.toList ++ more.units, out.diagnostics ++ more.diagnostics⟩, c)

/-- The units and diagnostics of all requests, unless the edition is too old. -/
def compile (c : Compiler) (rs : List Request) : CompileOutput × Compiler :=
  if c.options.edition.supported then c.compileAll rs
  else (⟨[], [{ problem := .editionTooOld c.options.edition }]⟩, c)

end Compiler

end Templating
