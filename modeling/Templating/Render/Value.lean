import Templating.Render.Encoded
import Templating.Text.Quoted

/-!
Values that a template writes. References to templates are of any type.
-/

namespace Templating.Render

/-- Something that writes its own text, in pieces, and may fail after the last of them. -/
structure Display where
  chunks : List String
  fails : Bool := false
  deriving DecidableEq, Repr, Inhabited

namespace Display

def ofText (s : String) : Display := ⟨[s], false⟩

def text? (d : Display) : Option String := if d.fails then none else some (String.join d.chunks)

end Display

inductive Value (τ : Type) where
  /-- Nothing. -/
  | null
  | boolean (b : Bool)
  /-- Text to be encoded where the content is HTML. -/
  | text (s : String)
  | encoded (e : Encoded)
  /-- Another template, rendered in place. -/
  | template (t : τ)
  | display (d : Display)
  deriving Repr, Inhabited

namespace Value

variable {τ : Type}

def isNull : Value τ → Bool
  | null => true
  | _ => false

def ofOption (v : Option (Value τ)) : Value τ := v.getD null

def describe? : Value τ → Option String
  | null => some "Null"
  | boolean b => some s!"Bool({b})"
  | text s => some ("Text(" ++ Text.quoted s ++ ")")
  | encoded e => some ("Encoded(" ++ Text.quoted e.text ++ ")")
  | template _ => some "Template(..)"
  | display d => d.text?.map fun s => "Display(" ++ Text.quoted s ++ ")"

end Value

end Templating.Render
