import Templating.Text.Name
import Templating.Text.Quoted

/-!
Where a piece of embedded code ends. Code is read up to the first boundary outside every delimiter,
literal and comment; delimiters must pair up on the way.
-/

namespace Templating.Code

/-- The boundary that a scan looks for. -/
inductive Stop where
  /-- A closing delimiter that nothing in the code opened. -/
  | closer (c : Char)
  | openBrace
  | fatArrow
  deriving DecidableEq, Repr, Inhabited

inductive ScanError where
  | unexpectedEnd (stop : Stop)
  | mismatched (expected found : Char)
  | unopened (found : Char)
  | unterminatedString
  | unterminatedComment
  deriving DecidableEq, Repr

namespace Stop

def text : Stop → List Char
  | closer c => [c]
  | openBrace => ['{']
  | fatArrow => ['=', '>']

end Stop

def ScanError.message : ScanError → String
  | unexpectedEnd stop => "Unexpected end of input, expected `" ++ String.ofList stop.text ++ "`"
  | mismatched e f =>
    "Mismatched delimiter, expected " ++ Text.quotedChar e ++ " but found " ++ Text.quotedChar f
  | unopened f => "Unexpected closing delimiter " ++ Text.quotedChar f
  | unterminatedString => "Unterminated string literal"
  | unterminatedComment => "Unterminated block comment"

/-- What the scan is inside of. -/
inductive Mode where
  | code
  | string
  | stringEscape
  /-- A string without escapes that as many `#` guard. -/
  | raw (guards : Nat)
  | char
  | charEscape
  | lineComment
  | blockComment (depth : Nat)
  deriving DecidableEq, Repr

/-- What reading one character does: it is the boundary, or it is refused, or the scan goes on after
`skip` more. -/
inductive Move where
  | stop
  | fail (error : ScanError)
  | go (skip : Nat) (mode : Mode) (closers : List Char)

def closerOf? : Char → Option Char
  | '(' => some ')'
  | '[' => some ']'
  | '{' => some '}'
  | _ => none

def isCloser (c : Char) : Bool := c == ')' || c == ']' || c == '}'

/-- An apostrophe begins a character literal if an escape follows it, or one character and another
apostrophe; otherwise it begins a lifetime. -/
def startsChar : List Char → Bool
  | '\\' :: _ => true
  | _ :: '\'' :: _ => true
  | _ => false

/-- Guards and mark of a raw string: how many guards there are, if a quote follows them. -/
def rawGuards? (cs : List Char) : Option Nat :=
  let guards := (cs.takeWhile (· == '#')).length
  if (cs.drop guards).head? == some '"' then some guards else none

def isStop (stop : Stop) (c : Char) (next : List Char) : Bool :=
  match stop with
  | .closer x => c == x
  | .openBrace => c == '{'
  | .fatArrow => c == '=' && next.head? == some '>'

def codeMove (stop : Stop) (closers : List Char) (prev : Option Char) (c : Char)
    (next : List Char) : Move :=
  if closers.isEmpty && isStop stop c next then .stop
  else match closerOf? c with
    | some closer => .go 0 .code (closer :: closers)
    | none =>
      if isCloser c then
        match closers with
        | [] => .fail (.unopened c)
        | e :: rest => if e == c then .go 0 .code rest else .fail (.mismatched e c)
      else match c with
        | '/' =>
          match next with
          | '/' :: _ => .go 1 .lineComment closers
          | '*' :: _ => .go 1 (.blockComment 1) closers
          | _ => .go 0 .code closers
        | '"' => .go 0 .string closers
        | '\'' => .go 0 (if startsChar next then .char else .code) closers
        | 'r' =>
          match if prev.any Text.continuesName then none else rawGuards? next with
          | some n => .go (n + 1) (.raw n) closers
          | none => .go 0 .code closers
        | 'b' =>
          match next with
          | 'r' :: next =>
            match if prev.any Text.continuesName then none else rawGuards? next with
            | some n => .go (n + 2) (.raw n) closers
            | none => .go 0 .code closers
          | _ => .go 0 .code closers
        | _ => .go 0 .code closers

def move (stop : Stop) (mode : Mode) (closers : List Char) (prev : Option Char) (c : Char)
    (next : List Char) : Move :=
  match mode with
  | .code => codeMove stop closers prev c next
  | .string =>
    .go 0 (if c == '"' then .code else if c == '\\' then .stringEscape else .string) closers
  | .stringEscape => .go 0 .string closers
  | .raw n =>
    if c == '"' && (List.replicate n '#').isPrefixOf next then .go n .code closers else
      .go 0 (.raw n) closers
  | .char => .go 0 (if c == '\'' then .code else if c == '\\' then .charEscape else .char) closers
  | .charEscape => .go 0 .char closers
  | .lineComment => .go 0 (if c == '\n' then .code else .lineComment) closers
  | .blockComment d =>
    if c == '*' && next.head? == some '/' then
      .go 1 (if d == 1 then .code else .blockComment (d - 1)) closers
    else if c == '/' && next.head? == some '*' then .go 1 (.blockComment (d + 1)) closers
    else .go 0 (.blockComment d) closers

def Mode.atEnd (stop : Stop) : Mode → ScanError
  | .code | .lineComment => .unexpectedEnd stop
  | .blockComment _ => .unterminatedComment
  | _ => .unterminatedString

/-- The code up to the boundary; on a fault, the code before it. The first number counts characters
still to pass over. -/
def scanFrom (stop : Stop) : Nat → Mode → List Char → Option Char → List Char →
    Except (List Char × ScanError) (List Char)
  | _, mode, _, _, [] => .error ([], mode.atEnd stop)
  | k + 1, mode, closers, _, c :: cs => prepend c (scanFrom stop k mode closers (some c) cs)
  | 0, mode, closers, prev, c :: cs =>
    match move stop mode closers prev c cs with
    | .stop => .ok []
    | .fail e => .error ([], e)
    | .go k mode closers => prepend c (scanFrom stop k mode closers (some c) cs)
where
  prepend (c : Char) : Except (List Char × ScanError) (List Char) →
    Except (List Char × ScanError) (List Char)
    | .ok code => .ok (c :: code)
    | .error (code, e) => .error (c :: code, e)

/-- Scans code that `prev` stands before. -/
def scan (stop : Stop) (prev : Option Char) (cs : List Char) :
    Except (List Char × ScanError) (List Char) :=
  scanFrom stop 0 .code [] prev cs

end Templating.Code
