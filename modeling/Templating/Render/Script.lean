import Templating.Render.ModelBase
import Templating.Render.Template

/-!
Scripts: templates whose bodies are lists of steps. Each step is reported with its outcome and the
output after it. A step that fails ends its body, unless it is only tried.
-/

namespace Templating.Render

/-- A template by name, with its own kind of content or with the one that
templates have of themselves. -/
structure Reference where
  name : String
  ownKind : Bool := true
  deriving DecidableEq, Repr, Inhabited

namespace Script

/-- What a step gives. -/
inductive Answer where
  | done
  | kind (k : ContentKind)
  | flag (b : Bool)
  deriving DecidableEq, Repr

/-- The outcome of a step. -/
abbrev Outcome := Except RenderError Answer

structure Report where
  /-- The body in which the step was made. -/
  site : String
  label : String
  output : String
  result : Outcome

inductive WriterStep where
  | literal (text : String)
  | write (v : Value Reference)
  | beginAttribute (name opening closing : String) (count : Nat)
  | part (lead : String) (v : Value Reference) (literal : Bool)
  | endAttribute
  | cancel
  | check
  | suspend
  | fail (message : String)
  | kind
  deriving Inhabited

/-- A step, what it is called in reports, and whether the body goes on after it in any case. -/
structure Line (σ : Type) where
  label : String
  step : σ
  tried : Bool := false
  deriving Inhabited

inductive Step where
  | writer (s : WriterStep)
  | setLayout (t : Reference)
  | defineSection (name : String) (body : List (Line WriterStep))
  | renderBody
  | renderSection (name : String) (required : Bool)
  | isSectionDefined (name : String)
  | flush
  | writeModel
  deriving Inhabited

abbrev Writing := writing Reference Report

abbrev Composing := composing Reference Report

def done (r : Except RenderError Unit) : Outcome := r.map fun _ => .done

def writes (op : WriterOp Reference Report) : Program Writing op.Reply := .perform op .done

def composes (op : BodyOp Reference Report) : Program Composing op.Reply := .perform op .done

def WriterStep.program : WriterStep → Program Writing Outcome
  | literal s => do
    writes (.literal s)
    return .ok .done
  | write v => return done (← writes (.write v))
  | beginAttribute name opening closing count =>
    return done (← writes (.beginAttribute name opening closing count))
  | part lead v fixed => return done (← writes (.part lead v fixed))
  | endAttribute => return done (← writes .endAttribute)
  | cancel => do
    writes .cancel
    return .ok .done
  | check => return done (← writes .check)
  | suspend => do
    writes .suspend
    return .ok .done
  | fail m => return .error (.other m)
  | kind => return .ok (.kind (← writes .kind))

/-- A step with its report, and whether the body is to go on. -/
def Line.reported {σ : Type} {S : Signature} (site : String) (output : Program S String)
    (report : Report → Program S Unit)
    (l : Line σ) (program : σ → Program S Outcome) : Program S (Except RenderError Unit) := do
  let result ← program l.step
  report ⟨site, l.label, ← output, result⟩
  return if l.tried then .ok () else result.map fun _ => ()

def inTurn {S : Signature} : List (Program S (Except RenderError Unit)) →
    Program S (Except RenderError Unit)
  | [] => pure (.ok ())
  | p :: ps => do
    match ← p with
    | .ok () => inTurn ps
    | .error e => pure (.error e)

def sectionBody (site : String) (ls : List (Line WriterStep)) : SectionBody Reference Report :=
  inTurn (ls.map fun l =>
    l.reported site (writes .output) (fun r => writes (.report r)) (·.program))

def writeEncoded : Except RenderError Encoded → Program Composing Outcome
  | .ok e => return done (← composes (.writer (.write (.encoded e))))
  | .error e => pure (.error e)

def Step.program (site : String) (base : ModelBase String) : Step → Program Composing Outcome
  | writer s => ofWriting s.program
  | setLayout t => return done (← composes (.setLayout t))
  | defineSection name body =>
    return done (← composes (.defineSection name (sectionBody (site ++ "#" ++ name) body)))
  | renderBody => do writeEncoded (← composes .renderBody)
  | renderSection name required => do writeEncoded (← composes (.renderSection name required))
  | isSectionDefined name => return (← composes (.isSectionDefined name)).map .flag
  | flush => return done (← composes .flush)
  | writeModel =>
    match base.model with
    | .ok m => return done (← composes (.writer (.write (.text m))))
    | .error e => pure (.error e)

def body (site : String) (base : ModelBase String) (ls : List (Line Step)) :
    Body Reference Report :=
  inTurn (ls.map fun l =>
    l.reported site (composes (.writer .output)) (fun r => composes (.writer (.report r)))
      (·.program site base))

end Script

/-- A template by its steps. -/
structure Script where
  name : String
  base : ModelBase String := {}
  lines : List (Script.Line Script.Step) := []
  deriving Inhabited

namespace Script

/-- The templates that scripts stand for; one that is not among them has an empty body. -/
def library (scripts : List Script) : Library Reference Report := fun t =>
  let s := (scripts.find? (·.name == t.name)).getD { name := t.name }
  { kind := if t.ownKind then s.base.kind else default, body := body s.name s.base s.lines }

end Script

end Templating.Render
