import Templating.Text.Blank
import Templating.Text.Bytes
import Templating.Text.Quoted

/-!
Source texts, and places in them as byte offsets and as lines and columns. Lines and columns count
from one; a tab goes on to the next column of the form 4k + 1. They are told in numbers of 32 bits,
and a place whose line or column is more than that has no position.
-/

namespace Templating

structure Source where
  name : String
  text : String
  deriving DecidableEq, Repr, Inhabited

/-- The bytes from `start` up to, not including, `stop`. -/
structure Span where
  start : Nat
  stop : Nat
  deriving DecidableEq, Repr, Inhabited

structure Located (α : Type) where
  val : α
  span : Span
  deriving DecidableEq, Repr, Inhabited

structure Location where
  source : Source
  span : Span
  deriving DecidableEq, Repr, Inhabited

/-- A line and a column, however large. -/
structure Place where
  line : Nat
  column : Nat
  deriving DecidableEq, Repr, Inhabited

/-- A line and a column as they are told. -/
structure Position where
  line : Nat
  column : Nat
  line_lt : line < UInt32.size
  column_lt : column < UInt32.size
  deriving DecidableEq, Repr

def Span.length (s : Span) : Nat := s.stop - s.start

namespace Place

def after (p : Place) (c : Char) : Place :=
  if c == '\n' then ⟨p.line + 1, 1⟩
  else if c == '\t' then ⟨p.line, 1 + ((p.column - 1) / 4 + 1) * 4⟩
  else ⟨p.line, p.column + 1⟩

/-- The place that many bytes on; the end of the text if it is shorter. Inside a
character there is none. -/
def advance? (p : Place) : Nat → List Char → Option Place
  | 0, _ => some p
  | _ + 1, [] => some p
  | n + 1, c :: cs =>
    if n + 1 < c.utf8Size then none else (p.after c).advance? (n + 1 - c.utf8Size) cs

/-- The number that is told of the line: the lines before it are counted in 32 bits. -/
def lineNumber (p : Place) : Nat := (p.line - 1) % UInt32.size + 1

/-- The position, unless a number is too large for it. -/
def position? (p : Place) : Option Position :=
  if h : p.lineNumber < UInt32.size ∧ p.column < UInt32.size then
    some ⟨p.lineNumber, p.column, h.1, h.2⟩
  else none

end Place

def Position.label (p : Position) : String := s!"{p.line}:{p.column}"

namespace Source

def size (s : Source) : Nat := s.text.utf8ByteSize

def place? (s : Source) (offset : Nat) : Option Place := Place.advance? ⟨1, 1⟩ offset s.text.toList

def position? (s : Source) (offset : Nat) : Option Position := (s.place? offset).bind (·.position?)

/-- The text of a line, counted from one, without the line feeds and carriage returns at its end. -/
def line? (s : Source) : Nat → Option String
  | 0 => none
  | n + 1 =>
    (Text.splitAt (· == '\n') s.text.toList)[n]?.map fun cs =>
      .ofList (Text.dropEndWhile (fun c => c == '\n' || c == '\r') cs)

def label (s : Source) : String := "Source(" ++ Text.quoted s.name ++ ")"

end Source

namespace Location

def whole (s : Source) : Location := ⟨s, 0, s.size⟩

def between (a b : Location) : Location := ⟨a.source, a.span.start, b.span.stop⟩

def text? (l : Location) : Option String := Text.slice? l.span.start l.span.stop l.source.text

def start? (l : Location) : Option Position := l.source.position? l.span.start

def stop? (l : Location) : Option Position := l.source.position? l.span.stop

/-- The place in words: the name and the start, and the end too when more than a byte of
one line is meant. -/
def label? (l : Location) : Option String := do
  let a ← l.start?
  let b ← l.stop?
  if l.span.length > 1 && a.line == b.line then
    return s!"{l.source.name}:[{a.label}-{b.line}:{max (b.column - 1) 1}]"
  else
    return s!"{l.source.name}:{a.label}"

end Location

end Templating
