import Templating.Render.Writer
import Templating.Text.Quoted

/-!
What templates are built on: a kind of content, and a model, if the template
was given one. -/

namespace Templating.Render

structure ModelBase (μ : Type) where
  kind : ContentKind := .html
  model? : Option μ := none
  deriving DecidableEq, Repr, Inhabited

namespace ModelBase

variable {μ : Type}

def model (b : ModelBase μ) : Except RenderError μ :=
  match b.model? with
  | some m => .ok m
  | none => .error .modelRequired

def hasModel (b : ModelBase μ) : Bool := b.model?.isSome

def typeName : ContentKind → String
  | .html => "HtmlTemplate"
  | .text => "PlainTextTemplate"

def describe (b : ModelBase String) : String :=
  let model := match b.model? with
    | some m => "Some(" ++ Text.quoted m ++ ")"
    | none => "None"
  typeName b.kind ++ " \x7b model: " ++ model ++ " \x7d"

end ModelBase

end Templating.Render
