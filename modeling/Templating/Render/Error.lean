import Templating.Render.Signal

/-!
Why a render fails.
-/

namespace Templating.Render

/-- What a writer does about an attribute at the wrong time. -/
inductive AttributeMisuse where
  | nested
  | partOutside
  | notStarted
  deriving DecidableEq, Repr

def AttributeMisuse.message : AttributeMisuse → String
  | nested => "attribute started while another is being written"
  | partOutside => "attribute value written outside of an attribute"
  | notStarted => "attribute ended without being started"

inductive RenderError where
  | cancelled (token : Token)
  | sectionRedefined (name : String)
  | sectionNotDefined (name : String)
  | sectionAlreadyRendered (name : String)
  | notInLayout (operation : String)
  | layoutDepthExceeded (limit : Nat)
  | modelRequired
  | flushWithLayout
  | layoutAfterFlush
  | attributeState (misuse : AttributeMisuse)
  | suspendedInRuntime
  | sink
  | other (message : String)
  deriving DecidableEq, Repr

namespace RenderError

def message : RenderError → String
  | cancelled _ => "The operation was canceled"
  | sectionRedefined n => s!"Section `{n}` is already defined"
  | sectionNotDefined n => s!"Section `{n}` is not defined"
  | sectionAlreadyRendered n => s!"Section `{n}` has already been rendered"
  | notInLayout f => s!"`{f}` can only be used from a layout"
  | layoutDepthExceeded n => s!"Layout chain exceeds {n} levels"
  | modelRequired => "This template requires a model, but none was provided"
  | flushWithLayout => "Cannot flush the output of a template that has a layout"
  | layoutAfterFlush => "Cannot set a layout after output has been flushed"
  | attributeState m => s!"Attribute writer misuse: {m.message}"
  | suspendedInRuntime =>
    "Synchronous render suspended inside an async runtime, use the async entry points instead"
  | sink => "Failed to write to the output sink"
  | other m => m

def token? : RenderError → Option Token
  | cancelled t => some t
  | _ => none

end RenderError

def Signals.check (s : Signals) (t : Token) : Except RenderError Unit :=
  if s.isCancelled t then .error (.cancelled t) else .ok ()

end Templating.Render
