import Templating.Text.Blank
import Templating.Text.Quoted

/-!
Tokens of embedded code, and the one spelling in which they are printed: a blank between every two,
save after a mark that is joined to the next, after an opening delimiter and before
a closing one. -/

namespace Templating.Code

inductive Delimiter where
  | paren
  | bracket
  | brace
  deriving DecidableEq, Repr, Inhabited

inductive Token where
  | word (name : String)
  | lifetime (name : String)
  | literal (text : String)
  /-- One mark of punctuation; whether another follows at once. -/
  | mark (c : Char) (joint : Bool)
  | opening (d : Delimiter)
  | closing (d : Delimiter)
  deriving DecidableEq, Repr, Inhabited

namespace Delimiter

def opener : Delimiter → String
  | paren => "("
  | bracket => "["
  | brace => "\x7b"

def closer : Delimiter → String
  | paren => ")"
  | bracket => "]"
  | brace => "\x7d"

def ofOpener? : Char → Option Delimiter
  | '(' => some paren
  | '[' => some bracket
  | '\x7b' => some brace
  | _ => none

def ofCloser? : Char → Option Delimiter
  | ')' => some paren
  | ']' => some bracket
  | '\x7d' => some brace
  | _ => none

end Delimiter

namespace Token

def spell : Token → String
  | word w => w
  | lifetime l => "'" ++ l
  | literal t => t
  | mark c _ => c.toString
  | opening d => d.opener
  | closing d => d.closer

/-- Whether a blank stands between two tokens. -/
def apart : Token → Token → Bool
  | mark _ true, _ => false
  | opening .brace, _ => true
  | opening _, _ => false
  | _, closing .brace => true
  | _, closing _ => false
  | _, _ => true

def print : List Token → String
  | [] => ""
  | [t] => t.spell
  | t :: u :: ts => t.spell ++ (if t.apart u then " " else "") ++ print (u :: ts)

def symbol (s : String) : List Token :=
  go s.toList
where
  go : List Char → List Token
    | [] => []
    | [c] => [mark c false]
    | c :: cs => mark c true :: go cs

end Token

end Templating.Code
