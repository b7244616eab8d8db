/-!
Text made safe for HTML: five characters are written as entities, and all others
as they are. -/

namespace Templating.Render

/-- The entity that stands for a character, if it may not stand for itself. -/
def entity? : Char → Option String
  | '&' => some "&amp;"
  | '<' => some "&lt;"
  | '>' => some "&gt;"
  | '"' => some "&quot;"
  | '\'' => some "&#x27;"
  | _ => none

def encodeChar (out : String) (c : Char) : String :=
  match entity? c with
  | some e => out ++ e
  | none => out.push c

/-- A text encoded at the end of another. -/
def encodeOnto (out s : String) : String := s.toList.foldl encodeChar out

def encoded? (s : String) : Option String :=
  if s.toList.any (entity? · |>.isSome) then some (encodeOnto "" s) else none

def encode (s : String) : String := (encoded? s).getD s

def encodeChunks (out : String) (chunks : List String) : String := chunks.foldl encodeOnto out

/-- Text that is safe already and is written as it is. -/
structure Encoded where
  text : String := ""
  deriving DecidableEq, Repr, Inhabited

namespace Encoded

def raw (s : String) : Encoded := ⟨s⟩

def ofText (s : String) : Encoded := ⟨encode s⟩

end Encoded

end Templating.Render
