import Templating.Render.Program
import Templating.Render.Writer

/-!
Templates as programs. A body writes, defines sections and sets a layout; the body of a section does
no more than write. References to templates, and what bodies report of themselves, are
of any type. -/

namespace Templating.Render

/-- What any body may do. -/
inductive WriterOp (τ ε : Type) where
  | literal (text : String)
  | write (v : Value τ)
  | beginAttribute (name opening closing : String) (count : Nat)
  | part (lead : String) (v : Value τ) (literal : Bool)
  | endAttribute
  | output
  | kind
  | cancel
  | check
  | suspend
  | report (e : ε)

@[reducible] def WriterOp.Reply {τ ε : Type} : WriterOp τ ε → Type
  | write _ | beginAttribute .. | part .. | endAttribute | check => Except RenderError Unit
  | output => String
  | kind => ContentKind
  | literal _ | cancel | suspend | report _ => Unit

abbrev writing (τ ε : Type) : Signature := ⟨WriterOp τ ε, WriterOp.Reply⟩

abbrev SectionBody (τ ε : Type) := Program (writing τ ε) (Except RenderError Unit)

/-- What the body of a template may do. -/
inductive BodyOp (τ ε : Type) where
  | writer (op : WriterOp τ ε)
  | setLayout (t : τ)
  | defineSection (name : String) (body : SectionBody τ ε)
  | renderBody
  | renderSection (name : String) (required : Bool)
  | isSectionDefined (name : String)
  | flush

@[reducible] def BodyOp.Reply {τ ε : Type} : BodyOp τ ε → Type
  | writer op => op.Reply
  | setLayout _ | defineSection .. | flush => Except RenderError Unit
  | renderBody | renderSection .. => Except RenderError Encoded
  | isSectionDefined _ => Except RenderError Bool

abbrev composing (τ ε : Type) : Signature := ⟨BodyOp τ ε, BodyOp.Reply⟩

abbrev Body (τ ε : Type) := Program (composing τ ε) (Except RenderError Unit)

structure Template (τ ε : Type) where
  kind : ContentKind := .html
  body : Body τ ε

/-- The templates that references stand for. -/
abbrev Library (τ ε : Type) := τ → Template τ ε

def ofWriting {τ ε α : Type} (p : Program (writing τ ε) α) : Program (composing τ ε) α :=
  p.map .writer fun _ r => r

end Templating.Render
