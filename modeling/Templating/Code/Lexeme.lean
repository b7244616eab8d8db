import Templating.Code.Token
import Templating.Text.Word

/-!
Reading code as tokens. A reader takes the text and gives back what is left of it, or nothing if the
text does not begin with what it reads.
-/

namespace Templating.Code.Lexeme

abbrev Rest := Option (List Char)

def startsWord (c : Char) : Bool :=
  c == '_' || c.isAlpha || (0x80 ≤ c.toNat && Text.Word.first.holds c)

def continuesWord (c : Char) : Bool :=
  c == '_' || c.isAlphanum || (0x80 ≤ c.toNat && Text.Word.later.holds c)

/-- White space between tokens, the two direction marks included. -/
def isSpace (c : Char) : Bool := Text.isBlank c || c.toNat == 0x200e || c.toNat == 0x200f

def plainWord : List Char → Option (List Char × List Char)
  | [] => none
  | c :: cs =>
    if startsWord c then some (c :: cs.takeWhile continuesWord, cs.dropWhile continuesWord)
      else none

/-- A word, which `r#` may precede if the word is not one of those that name a place. -/
def word : List Char → Option (List Char × List Char)
  | 'r' :: '#' :: cs =>
    match plainWord cs with
    | some (w, r) =>
      if ["_", "super", "self", "Self", "crate"].contains (String.ofList w) then none else
        some ('r' :: '#' :: w, r)
    | none => none
  | cs => plainWord cs

def suffix (cs : List Char) : List Char :=
  match plainWord cs with
  | some (_, r) => r
  | none => cs

def isHex (c : Char) : Bool := c.isDigit || ('a' ≤ c && c ≤ 'f') || ('A' ≤ c && c ≤ 'F')

def hexValue (c : Char) : Nat :=
  if c.isDigit then c.toNat - '0'.toNat
  else if 'a' ≤ c && c ≤ 'f' then c.toNat - 'a'.toNat + 10
  else c.toNat - 'A'.toNat + 10

/-- The number of a braced escape after its opening brace: up to six digits, underscores between
them, and a code point that is a character. Gives the number and what follows the brace. -/
def bracedNumber (value digits : Nat) : List Char → Option (Nat × List Char)
  | [] => none
  | c :: cs =>
    if c == '_' && 0 < digits then bracedNumber value digits cs
    else if c == '\x7d' && 0 < digits then if value.isValidChar then some (value, cs) else none
    else if isHex c && digits < 6 then bracedNumber (value * 16 + hexValue c) (digits + 1) cs
    else none

/-- What a literal's text is made of. -/
inductive Flavor where
  | text
  | bytes
  | terminated
  deriving DecidableEq

def escaped (f : Flavor) : List Char → Rest
  | 'x' :: a :: b :: cs =>
    if isHex a && isHex b && (f != .text || a < '8') &&
      (f != .terminated || !(a == '0' && b == '0')) then some cs else none
  | 'u' :: '\x7b' :: cs =>
    match f, bracedNumber 0 0 cs with
    | .bytes, _ => none
    | .terminated, some (0, _) => none
    | _, some (_, r) => some r
    | _, none => none
  | '0' :: cs => if f == .terminated then none else some cs
  | c :: cs => if ['n', 'r', 't', '\\', '\'', '"'].contains c then some cs else none
  | [] => none

/-- The white space after a backslash that ends a line; a carriage return in it must belong to a
line end. -/
def continuation : List Char → Rest
  | [] => none
  | '\r' :: '\n' :: cs => continuation cs
  | '\r' :: _ => none
  | c :: cs => if c == ' ' || c == '\t' || c == '\n' then continuation cs else some (c :: cs)

def quotedBody (f : Flavor) : Nat → List Char → Rest
  | 0, _ => none
  | _, [] => none
  | n + 1, c :: cs =>
    match c with
    | '"' => some (suffix cs)
    | '\r' =>
      match cs with
      | '\n' :: cs => quotedBody f n cs
      | _ => none
    | '\\' =>
      match cs with
      | '\n' :: cs => (continuation cs).bind (quotedBody f n)
      | '\r' :: '\n' :: cs => (continuation cs).bind (quotedBody f n)
      | cs => (escaped f cs).bind (quotedBody f n)
    | c =>
      if (f == .bytes && 0x80 ≤ c.toNat) || (f == .terminated && c == '\x00') then none else
        quotedBody f n cs

def rawBody (f : Flavor) (guards : Nat) : List Char → Rest
  | [] => none
  | '\r' :: '\n' :: cs => rawBody f guards cs
  | c :: cs =>
    if c == '"' && (List.replicate guards '#').isPrefixOf cs then some (suffix (cs.drop guards))
    else if c == '\r' || (f == .bytes && 0x80 ≤ c.toNat) ||
      (f == .terminated && c == '\x00') then none
    else rawBody f guards cs

def raw (f : Flavor) (cs : List Char) : Rest :=
  let guards := (cs.takeWhile (· == '#')).length
  match cs.drop guards with
  | '"' :: r => if guards ≤ 255 then rawBody f guards r else none
  | _ => none

def cooked (f : Flavor) (cs : List Char) : Rest := quotedBody f (cs.length + 1) cs

/-- A character after its apostrophe. -/
def character (f : Flavor) : List Char → Rest
  | '\\' :: cs =>
    (escaped f cs).bind fun
      | '\'' :: r => some (suffix r)
      | _ => none
  | c :: '\'' :: r => if f == .bytes && 0x80 ≤ c.toNat then none else some (suffix r)
  | _ => none

/-- Digits of a number with a point or an exponent; a number that has neither is read elsewhere. -/
def floatDigits (cs : List Char) : Rest :=
  let isNumeral (c : Char) := c.isDigit || c == '_'
  match cs with
  | [] => none
  | c :: _ =>
    if !c.isDigit then none else
    let after := cs.dropWhile isNumeral
    let point : Option (Bool × List Char) :=
      match after with
      | '.' :: r =>
        if r.head?.any fun c => c == '.' || startsWord c then none else
          some (true, r.dropWhile isNumeral)
      | r => some (false, r)
    match point with
    | none => none
    | some (pointed, after) =>
      match after with
      | e :: r =>
        if e == 'e' || e == 'E' then
          let unsigned := r.dropWhile (· == '_')
          let digits : Option (List Char) :=
            match unsigned with
            | '+' :: r => some r
            | '-' :: r => some r
            | r => some r
          match digits with
          | none => none
          | some r =>
            if (r.takeWhile isNumeral).any Char.isDigit then some (r.dropWhile isNumeral)
            else if pointed then some after else none
        else if pointed then some after else none
      | [] => if pointed then some after else none

def numberEnd (cs : List Char) : Rest :=
  let r := suffix cs
  if r.head?.any continuesWord then none else some r

def digitsIn (base : Nat) (empty : Bool) : List Char → Rest
  | [] => if empty then none else some []
  | c :: cs =>
    if c.isDigit then if hexValue c < base then digitsIn base false cs else none
    else if isHex c && hexValue c < base then digitsIn base false cs
    else if c == '_' then if empty && base == 10 then none else digitsIn base empty cs
    else if empty then none else some (c :: cs)

def integer : List Char → Rest
  | '0' :: 'x' :: cs => digitsIn 16 true cs
  | '0' :: 'o' :: cs => digitsIn 8 true cs
  | '0' :: 'b' :: cs => digitsIn 2 true cs
  | cs => digitsIn 10 true cs

def number (cs : List Char) : Rest :=
  ((floatDigits cs).bind numberEnd) <|> ((integer cs).bind numberEnd)

def literal (cs : List Char) : Rest :=
  match cs with
  | '"' :: r => cooked .text r
  | 'r' :: r => raw .text r
  | 'b' :: '"' :: r => cooked .bytes r
  | 'b' :: 'r' :: r => raw .bytes r
  | 'b' :: '\'' :: r => character .bytes r
  | 'c' :: '"' :: r => cooked .terminated r
  | 'c' :: 'r' :: r => raw .terminated r
  | '\'' :: r => character .text r
  | _ => number cs

def isMark (c : Char) : Bool := "~!@#$%^&*-=+|;:,<.>/?'".toList.contains c

def startsComment (cs : List Char) : Bool := ['/', '/'].isPrefixOf cs || ['/', '*'].isPrefixOf cs

def startsMark (cs : List Char) : Bool := !startsComment cs && cs.head?.any isMark

def startsLiteral (cs : List Char) : Bool :=
  ["r\"", "r#\"", "r##", "b\"", "b'", "br\"", "br#", "c\"", "cr\"", "cr#"].any fun p =>
    p.toList.isPrefixOf cs

def leaf (cs : List Char) : Option (Token × List Char) :=
  match literal cs with
  | some r => some (.literal (.ofList (cs.take (cs.length - r.length))), r)
  | none =>
    match cs with
    | '\'' :: r =>
      match word r with
      | some (w, after) =>
        if after.head? == some '\'' || (after.head? == some '#' && r.take 2 != ['r', '#']) then none
        else some (.lifetime (.ofList w), after)
      | none => none
    | c :: r =>
      if startsMark cs then some (.mark c (startsMark r), r)
      else if startsLiteral cs then none
      else (word cs).map fun (w, r) => (.word (.ofList w), r)
    | [] => none

/-- The text of a line, and what follows from its line end on. -/
def lineText : List Char → List Char × List Char
  | [] => ([], [])
  | '\n' :: cs => ([], '\n' :: cs)
  | '\r' :: '\n' :: cs => ([], '\n' :: cs)
  | c :: cs => let (a, b) := lineText cs; (c :: a, b)

def blockText : Nat → List Char → Option (List Char × List Char)
  | _, [] => none
  | d, '/' :: '*' :: cs => (blockText (d + 1) cs).map fun (a, b) => ('/' :: '*' :: a, b)
  | d, '*' :: '/' :: cs =>
    if d == 0 then some ([], cs) else (blockText (d - 1) cs).map fun (a, b) => ('*' :: '/' :: a, b)
  | d, c :: cs => (blockText d cs).map fun (a, b) => (c :: a, b)

/-- The text of a documentation comment, whether it documents what it stands in,
and what follows it. -/
def docComment (cs : List Char) : Option (List Char × Bool × List Char) :=
  match cs with
  | '/' :: '/' :: '!' :: r => let (a, b) := lineText r; some (a, true, b)
  | '/' :: '*' :: '!' :: r => (blockText 0 r).map fun (a, b) => (a, true, b)
  | '/' :: '/' :: '/' :: r =>
    if r.head? == some '/' then none else let (a, b) := lineText r; some (a, false, b)
  | '/' :: '*' :: '*' :: r =>
    if r.head? == some '*' || r.head? == some '/' then none else (blockText 0 r).map fun (a, b) =>
      (a, false, b)
  | _ => none

/-- A comment that documents nothing: what follows it. -/
def comment (cs : List Char) : Rest :=
  match cs with
  | '/' :: '/' :: r => if (docComment cs).isSome then none else some (lineText r).2
  | '/' :: '*' :: r => if (docComment cs).isSome then none else (blockText 0 r).map (·.2)
  | _ => none

/-- What follows white space and comments that document nothing. -/
def afterSpaces : Nat → List Char → List Char
  | 0, cs => cs
  | _, [] => []
  | n + 1, c :: cs =>
    if isSpace c then afterSpaces n cs
    else match comment (c :: cs) with
      | some r => afterSpaces n r
      | none => c :: cs

def hasLoneReturn : List Char → Bool
  | [] => false
  | '\r' :: '\n' :: cs => hasLoneReturn cs
  | c :: cs => c == '\r' || hasLoneReturn cs

/-- The attribute that a documentation comment stands for. -/
def docTokens (text : List Char) (inner : Bool) : List Token :=
  [.mark '#' false] ++ (if inner then [.mark '!' false] else []) ++
    [.opening .bracket, .word "doc", .mark '=' false, .literal (Text.quoted (.ofList text)),
      .closing .bracket]

/-- The tokens of a text, inside the given open delimiters, the innermost first. -/
def tokensFrom : Nat → List Delimiter → List Char → Option (List Token)
  | _, [], [] => some []
  | _, _ :: _, [] => none
  | 0, _, _ => none
  | n + 1, pending, c :: cs =>
    if isSpace c then tokensFrom n pending cs
    else match comment (c :: cs) with
      | some r => tokensFrom n pending r
      | none =>
        match docComment (c :: cs) with
        | some (text, inner, r) =>
          if hasLoneReturn text then none else
            (tokensFrom n pending r).map (docTokens text inner ++ ·)
        | none =>
          match Delimiter.ofOpener? c, Delimiter.ofCloser? c with
          | some d, _ => (tokensFrom n (d :: pending) cs).map (.opening d :: ·)
          | none, some d =>
            match pending with
            | e :: outer => if e == d then (tokensFrom n outer cs).map (.closing d :: ·) else none
            | [] => none
          | none, none =>
            match leaf (c :: cs) with
            | some (t, r) => (tokensFrom n pending r).map (t :: ·)
            | none => none

/-- The tokens of a text, if it is made of tokens and its delimiters pair up. A byte order mark may
come first. -/
def tokens? (cs : List Char) : Option (List Token) :=
  let cs := if cs.head? == some '\ufeff' then cs.tail else cs
  tokensFrom (cs.length + 1) [] cs

def unescape : Nat → List Char → List Char
  | 0, _ => []
  | _, [] => []
  | n + 1, c :: cs =>
    match c with
    | '"' => []
    | '\r' => '\n' :: unescape n (cs.drop 1)
    | '\\' =>
      match cs with
      | 'n' :: r => '\n' :: unescape n r
      | 'r' :: r => '\r' :: unescape n r
      | 't' :: r => '\t' :: unescape n r
      | '0' :: r => '\x00' :: unescape n r
      | 'x' :: a :: b :: r => Char.ofNat (hexValue a * 16 + hexValue b) :: unescape n r
      | 'u' :: _ :: r =>
        match bracedNumber 0 0 r with
        | some (v, r) => Char.ofNat v :: unescape n r
        | none => []
      | x :: r =>
        if x == '\n' || x == '\r' then unescape n (r.dropWhile Text.isBlank) else x :: unescape n r
      | [] => []
    | c => c :: unescape n cs

def stringValue? (literal : String) : Option String :=
  match literal.toList with
  | '"' :: r => some (.ofList (unescape (r.length + 1) r))
  | 'r' :: r =>
    let guards := (r.takeWhile (· == '#')).length
    let body := r.drop (guards + 1)
    (rawBody .text guards body).map fun _ =>
      let closing := '"' :: List.replicate guards '#'
      .ofList (untilMark closing body)
  | _ => none
where
  untilMark (closing : List Char) : List Char → List Char
    | [] => []
    | c :: cs => if closing.isPrefixOf (c :: cs) then [] else c :: untilMark closing cs

end Templating.Code.Lexeme
