import Templating.Naming
import Templating.Page.Document

/-!
Building a page from the trees of its imports and its own: the directives that take effect, and the
passes over them, each of which settles one side of the page.
-/

namespace Templating.Page

open Markup (Tree DirectiveUse Node)

/-- A directive that takes effect, with its place. -/
structure Occurrence where
  location : Location
  use : DirectiveUse (Located Node)

/-- What passes read. -/
structure Context where
  file : InputFile
  options : Options
  tree : Tree
  occurrences : List Occurrence

namespace Context

def of (cx : Context) (keyword : String) : List Occurrence :=
  cx.occurrences.filter (·.use.keyword == keyword)

end Context

/-- Directives of one file that take effect, and diagnostics for those that may not occur again. The
keywords seen so far are those of directives that may occur once. -/
def effective (t : DirectiveTable) (s : Source) :
    List String → List (Located (DirectiveUse (Located Node))) → List Occurrence × List Diagnostic
  | _, [] => ([], [])
  | seen, ⟨d, span⟩ :: ds =>
    if !d.sound then effective t s seen ds else
    let once := ((t.get? d.keyword).map (·.usage)) == some .oncePerFile
    if once && seen.contains d.keyword then
      let (os, fs) := effective t s seen ds
      (os, ⟨.duplicateDirective d.keyword, some ⟨s, span⟩, .error⟩ :: fs)
    else
      let (os, fs) := effective t s (if once then d.keyword :: seen else seen) ds
      (⟨⟨s, span⟩, d⟩ :: os, fs)

/-- What a file contributes: its directives and its diagnostics. -/
def contribution (t : DirectiveTable) (tree : Tree) : List Occurrence × List Diagnostic :=
  let (os, fs) := effective t tree.source [] tree.directives
  (os, tree.allDiagnostics ++ fs)

namespace Pass

def report (d : Document) (ps : List (Problem × Location)) : Document :=
  { d with diagnostics := d.diagnostics ++ ps.map fun (p, l) => ⟨p, some l, .error⟩ }

def rejectModel (cx : Context) (d : Document) : Document :=
  report d ((cx.of "model").map fun o =>
    (.modelDirective ((o.use.token? .type).getD ""), o.location))

def tagHelperKeywords : List String := ["addTagHelper", "removeTagHelper", "tagHelperPrefix"]

def rejectTagHelpers (cx : Context) (d : Document) : Document :=
  report d ((cx.occurrences.filter fun o => tagHelperKeywords.contains o.use.keyword).map fun o =>
    (.tagHelpers o.use.keyword, o.location))

/-- The last declaration wins, then the hint that comes with the file. -/
def namespaceOf (cx : Context) : String :=
  let declared := (cx.of "namespace").getLast?.bind (·.use.token? .namespacePath)
  let name := ((declared <|> cx.file.hint?).map Naming.normalize).getD ""
  if name == "" then defaultNamespace else name

def settleNamespace (cx : Context) (d : Document) : Document :=
  { d with namespaceName := namespaceOf cx }

def collectUses (cx : Context) (d : Document) : Document :=
  let uses := (cx.of "use").map fun o => (⟨(o.use.token? .text).getD "", o.location⟩ : Declaration)
  let (good, bad) := uses.partition fun u => Code.isUseTree u.text
  { report d (bad.map fun u =>
    (.malformedDirective "use" s!"`{u.text}` is not a valid use tree", u.location)) with uses :=
    good }

def settleBase (cx : Context) (d : Document) : Document :=
  let base? := (cx.of "inherits").getLast?.bind fun o => (o.use.token? .type).map fun text =>
    ⟨text, o.location⟩
  { d with definition := { d.definition with base? } }

/-- The first parameter of each name, and the places of the others. -/
def distinctParameters : List TypeParameter → List Occurrence →
    List TypeParameter × List (Problem × Location)
  | done, [] => (done, [])
  | done, o :: os =>
    let name := (o.use.token? .member).getD ""
    if done.any (·.name == name) then
      let (ps, fs) := distinctParameters done os
      (ps, (.duplicateTypeParameter name, o.location) :: fs)
    else distinctParameters (done ++ [⟨name, o.use.token? .constraint⟩]) os

def collectTypeParameters (cx : Context) (d : Document) : Document :=
  let (ps, fs) := distinctParameters [] (cx.of "typeparam")
  let d := report d fs
  { d with definition := { d.definition with typeParameters := d.definition.typeParameters ++ ps } }

def collectFunctions (cx : Context) (d : Document) : Document :=
  let members := (cx.of "functions").filterMap fun o =>
    match o.use.body? with
    | some (.code c) => some (Member.functions ⟨c.val, o.location.source, c.span⟩)
    | _ => none
  { d with definition := { d.definition with members := d.definition.members ++ members } }

def configureClass (cx : Context) (d : Document) : Document :=
  let access := (cx.file.accessibility? <|> cx.options.defaultAccessibility?).getD .internal
  { d with definition := { d.definition with
      name := cx.file.className
      modifiers :=
        { exported := access == .exported, internal := access == .internal, extensible := true }
      executeModifiers := { override := true, async := true } } }

def lowerBody (cx : Context) (d : Document) : Document :=
  { d with definition := { d.definition with body := lower true cx.tree.nodes } }

end Pass

/-- A pass by name: the directives it reads, and the passes that it must follow. -/
structure Pass where
  name : String
  reads : List String
  after : List String
  deriving DecidableEq, Repr, Inhabited

structure Stage where
  pass : Pass
  run : Context → Document → Document

def stages : List Stage := [
  ⟨⟨"reject-model", ["model"], []⟩, Pass.rejectModel⟩,
  ⟨⟨"reject-tag-helpers", Pass.tagHelperKeywords, []⟩, Pass.rejectTagHelpers⟩,
  ⟨⟨"namespace", ["namespace"], []⟩, Pass.settleNamespace⟩,
  ⟨⟨"use", ["use"], ["namespace"]⟩, Pass.collectUses⟩,
  ⟨⟨"inherits", ["inherits"], []⟩, Pass.settleBase⟩,
  ⟨⟨"typeparam", ["typeparam"], []⟩, Pass.collectTypeParameters⟩,
  ⟨⟨"functions", ["functions"], []⟩, Pass.collectFunctions⟩,
  ⟨⟨"class-configuration", [], ["inherits", "typeparam", "functions"]⟩, Pass.configureClass⟩,
  ⟨⟨"body", ["section"], ["class-configuration"]⟩, Pass.lowerBody⟩]

def pipeline : List Pass := stages.map (·.pass)

inductive PipelineError where
  | duplicate (pass : String)
  | outOfOrder (pass dependency : String)
  | unknownDirective (pass directive : String)
  deriving DecidableEq, Repr

def PipelineError.message : PipelineError → String
  | duplicate p => s!"Pass `{p}` appears more than once"
  | outOfOrder p d => s!"Pass `{p}` must run after `{d}`, which does not precede it"
  | unknownDirective p d => s!"Pass `{p}` reads `{d}`, which is not a registered directive"

def Pass.error? (t : DirectiveTable) (seen : List String) (p : Pass) : Option PipelineError :=
  match p.reads.find? fun d => (t.get? d).isNone with
  | some d => some (.unknownDirective p.name d)
  | none =>
    match p.after.find? fun d => !seen.contains d with
    | some d => some (.outOfOrder p.name d)
    | none => if seen.contains p.name then some (.duplicate p.name) else none

def validateFrom (t : DirectiveTable) : List String → List Pass → Except PipelineError Unit
  | _, [] => .ok ()
  | seen, p :: ps =>
    match p.error? t seen with
    | some e => .error e
    | none => validateFrom t (p.name :: seen) ps

def validate (t : DirectiveTable) (ps : List Pass) : Except PipelineError Unit :=
  validateFrom t [] ps

/-- The page of a tree and of the imports before it, outermost first. -/
def build (file : InputFile) (options : Options) (t : DirectiveTable) (imports : List Tree)
    (tree : Tree) : Document :=
  let contributions := (imports ++ [tree]).map (contribution t)
  let cx : Context := ⟨file, options, tree, contributions.flatMap (·.1)⟩
  let start : Document :=
    { source := file.path, namespaceName := defaultNamespace
      definition := { name := file.className }
      diagnostics := contributions.flatMap (·.2) }
  stages.foldl (fun d s => s.run cx d) start

end Templating.Page
