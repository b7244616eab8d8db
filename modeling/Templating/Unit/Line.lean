import Templating.Text.Blank
import Templating.Text.Bytes

/-!
Emitted text as lines. A line knows how deep it is indented; a blank line is not
indented at all. -/

namespace Templating.Unit

inductive Line where
  | blank
  | text (level : Nat) (s : String)
  deriving DecidableEq, Repr, Inhabited

abbrev Lines := List Line

namespace Line

def indent : String := "    "

def render : Line → String
  | blank => "\n"
  | text n s => String.join (List.replicate n indent) ++ s ++ "\n"

def deeper : Line → Line
  | blank => blank
  | text n s => text (n + 1) s

def of (s : String) : Line := text 0 s

end Line

namespace Lines

def render (ls : Lines) : String := String.join (ls.map Line.render)

def nest (ls : Lines) : Lines := ls.map Line.deeper

end Lines

def braced (head : String) (body : Lines) (tail : String := "\x7d") : Lines :=
  .of (head ++ " \x7b") :: Lines.nest body ++ [.of tail]

def spaced : List Lines → Lines
  | [] => []
  | [ls] => ls
  | ls :: rest => ls ++ .blank :: spaced rest

/-- White space at the front of a line, in bytes. -/
def margin (line : List Char) : Nat := Text.byteSize (line.takeWhile Text.isBlank)

/-- The line without as many bytes of white space; if they end inside a character, without any. -/
def outdent (n : Nat) (line : List Char) : List Char :=
  match Text.cutAt? n line with
  | some (_, rest) => rest
  | none => Text.trimStart line

/-- Embedded code laid out afresh: without blank lines at its ends and without the white space that
all its lines share. -/
def codeLines (code : String) : Lines :=
  let ls := Text.dropBlankEnds (Text.lines code.toList)
  let shared := ((ls.filter (!Text.allBlank ·)).map margin).min?.getD 0
  ls.map fun l => if Text.allBlank l then .blank else
    .of (.ofList (Text.trimEnd (outdent shared l)))

end Templating.Unit
