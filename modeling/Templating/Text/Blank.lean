/-!
Blank characters, and text without the blanks at its ends. A blank is a character with the Unicode
property White_Space.
-/

namespace Templating.Text

def isBlank (c : Char) : Bool :=
  let n := c.toNat
  n == 0x20 || (0x9 ≤ n && n ≤ 0xd) || n == 0x85 || n == 0xa0 || n == 0x1680 ||
    (0x2000 ≤ n && n ≤ 0x200a) ||
    n == 0x2028 || n == 0x2029 || n == 0x202f || n == 0x205f || n == 0x3000

def isPad (c : Char) : Bool := c == ' ' || c == '\t'

def dropEndWhile (p : Char → Bool) (cs : List Char) : List Char :=
  (cs.reverse.dropWhile p).reverse

def trimStart (cs : List Char) : List Char := cs.dropWhile isBlank

def trimEnd (cs : List Char) : List Char := dropEndWhile isBlank cs

def trim (cs : List Char) : List Char := trimEnd (trimStart cs)

def allBlank (cs : List Char) : Bool := cs.all isBlank

def trimmed (s : String) : String := .ofList (trim s.toList)

/-- The pieces between the characters that a test picks; one more than there are such characters. -/
def splitAt (p : Char → Bool) : List Char → List (List Char)
  | [] => [[]]
  | c :: cs =>
    if p c then [] :: splitAt p cs
    else match splitAt p cs with
      | [] => [[c]]
      | r :: rs => (c :: r) :: rs

/-- The lines of a text. A line feed ends a line, with the carriage return before it; what follows
the last line feed is a line if it is not empty. -/
def lines : List Char → List (List Char)
  | [] => []
  | '\n' :: cs => [] :: lines cs
  | '\r' :: '\n' :: cs => [] :: lines cs
  | c :: cs =>
    match lines cs with
    | [] => [[c]]
    | r :: rs => (c :: r) :: rs

def dropBlankEnds (ls : List (List Char)) : List (List Char) :=
  ((ls.dropWhile allBlank).reverse.dropWhile allBlank).reverse

def join (sep : String) (parts : List String) : String := sep.intercalate parts

end Templating.Text
