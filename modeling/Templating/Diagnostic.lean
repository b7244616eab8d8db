import Templating.Options
import Templating.Source

/-!
What a compilation reports: problems, how grave they are and where, and the listing in which they
are shown.
-/

namespace Templating

inductive Severity where
  | error
  | warning
  | hidden
  deriving DecidableEq, Repr, Inhabited

def Severity.text : Severity → String
  | error => "error"
  | warning => "warning"
  | hidden => "hidden"

inductive Problem where
  | editionTooOld (edition : Edition)
  | badText (message : String)
  | modelDirective (model : String)
  | tagHelpers (keyword : String)
  | duplicateDirective (keyword : String)
  | malformedDirective (keyword reason : String)
  | nestedDirective (keyword : String)
  | duplicateTypeParameter (name : String)
  | internal (file message : String)
  deriving DecidableEq, Repr, Inhabited

namespace Problem

def code : Problem → String
  | editionTooOld _ => "STC0001"
  | badText _ => "STC1000"
  | modelDirective _ => "STC1001"
  | tagHelpers _ => "STC1002"
  | duplicateDirective _ => "STC1003"
  | malformedDirective .. => "STC1004"
  | nestedDirective _ => "STC1005"
  | duplicateTypeParameter _ => "STC1006"
  | internal .. => "STC9999"

def message : Problem → String
  | editionTooOld e =>
    s!"Edition {e.text} is not supported, generated templates require edition 2018 or later"
  | badText m => s!"Syntax error: {m}"
  | modelDirective m =>
    s!"The `model` directive is not supported (found `{m}`), " ++
      s!"use `@inherits HtmlTemplate<{m}>` instead"
  | tagHelpers k => s!"Tag helpers are not supported (found `@{k}`)"
  | duplicateDirective k => s!"The `{k}` directive may only appear once per file"
  | malformedDirective k r => s!"Malformed `{k}` directive: {r}"
  | nestedDirective k => s!"The `{k}` directive is only allowed at the top level of a template"
  | duplicateTypeParameter n => s!"Type parameter `{n}` is declared more than once"
  | internal f m => s!"Internal error while generating `{f}`: {m}"

end Problem

/-- A problem in a text whose source is known from where it is kept. -/
structure Fault where
  problem : Problem
  span : Span
  severity : Severity := .error
  deriving DecidableEq, Repr, Inhabited

structure Diagnostic where
  problem : Problem
  location? : Option Location := none
  severity : Severity := .error
  deriving DecidableEq, Repr, Inhabited

def Fault.inSource (s : Source) (f : Fault) : Diagnostic :=
  ⟨f.problem, some ⟨s, f.span⟩, f.severity⟩

namespace Diagnostic

def code (d : Diagnostic) : String := d.problem.code

def message (d : Diagnostic) : String := d.problem.message

def isError (d : Diagnostic) : Bool := d.severity == .error

def spaces (n : Nat) : String := .ofList (List.replicate n ' ')

def padded (width n : Nat) : String := spaces (width - (toString n).length) ++ toString n

/-- A field filled with a character; the width of a field is a number of 16 bits. -/
def field? (width : Nat) (c : Char) : Option String :=
  if width < UInt16.size then some (.ofList (List.replicate width c)) else none

/-- The first line of a location, with its number and a row of carets under what is meant. -/
def excerpt? (l : Location) : Option String := do
  let a ← l.start?
  let b ← l.stop?
  let width := (toString b.line).length
  let line := match l.source.line? a.line with
    | some s => padded width a.line ++ " | " ++ s ++ "\n"
    | none => ""
  let last := if b.line == a.line then max b.column (a.column + 1) else a.column + 1
  let skipped ← field? (a.column - 1) ' '
  let carets ← field? (last - a.column) '^'
  return spaces width ++ " |\n" ++ line ++ spaces width ++ " | " ++ skipped ++ carets ++ "\n"

/-- The diagnostic as listed; none if its location has no positions or is too far to the right. -/
def render? (d : Diagnostic) : Option String := do
  let head := s!"{d.severity.text}[{d.code}]: {d.message}\n"
  match d.location? with
  | none => return head
  | some l => return head ++ " --> " ++ (← l.label?) ++ "\n" ++ (← excerpt? l)

def errorCount (ds : List Diagnostic) : Nat := (ds.filter isError).length

def hasErrors (ds : List Diagnostic) : Bool := ds.any isError

/-- All diagnostics but hidden ones, a blank line after each, and the number of errors. -/
def renderAll? (ds : List Diagnostic) : Option String := do
  let shown ← (ds.filter (·.severity != .hidden)).mapM fun d => return (← d.render?) ++ "\n"
  let tally := match errorCount ds with
    | 0 => ""
    | 1 => "Compilation failed with 1 error\n"
    | n => s!"Compilation failed with {n} errors\n"
  return String.join shown ++ tally

end Diagnostic

end Templating
