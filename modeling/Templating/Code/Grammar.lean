import Templating.Code.Item

/-!
The grammar put together, and the questions asked of it: whether a text is a type, a use tree or a
name, and what a unit of code defines. Reading goes as deep as the text has tokens, and a few levels
more.
-/

namespace Templating.Code

namespace Phrase

def rule (read : Readers) : (p : Phrase) → Reader p.Result
  | type plus => TypeExpr.rule read plus
  | bound place => Bound.rule read place
  | generics => Generics.rule read
  | whereClause => Generics.whereRule read
  | attributes inner => Attribute.rule read inner
  | pattern alternatives => Pattern.rule read alternatives
  | expression structures => Expression.rule read structures
  | rangeEnd structures => Expression.rangeEnd read structures
  | block => Expression.block read
  | statements => Expression.statements read
  | item => Item.rule read
  | items => Item.list read
  | useTree => UseTree.rule read

/-- Reads a phrase whose parts nest no deeper than the given number. -/
def read : Nat → Readers
  | 0, _ => failure
  | n + 1, p => rule (read n) p

def parse? (p : Phrase) (ts : List Token) : Option p.Result :=
  Reader.whole? (read (8 * ts.length + 8) p) ts

end Phrase

def parse? (p : Phrase) (text : List Char) : Option p.Result :=
  (Lexeme.tokens? text).bind p.parse?

def type? (s : String) : Option TypeExpr := parse? (.type true) s.toList

def isType (cs : List Char) : Bool := (parse? (.type true) cs).isSome

def isUseTree (s : String) : Bool := (parse? .useTree s.toList).isSome

def isName (s : String) : Bool :=
  match Lexeme.tokens? s.toList with
  | some [.word w] => Reader.isName w
  | _ => false

/-- The text of a unit without the line that names an interpreter. A bracket behind its marks, white
space and comments apart, makes it an attribute instead. -/
def withoutShebang (cs : List Char) : List Char :=
  match cs with
  | '#' :: '!' :: r =>
    if (Lexeme.afterSpaces r.length r).head? == some '[' then cs else cs.dropWhile (· != '\n')
  | _ => cs

def items? (s : String) : Option (List Item) := do
  let cs := s.toList
  let cs := if cs.head? == some '\ufeff' then cs.tail else cs
  let ts ← Lexeme.tokens? (withoutShebang cs)
  let unit : Reader (List Item) := do
    let _ ← Phrase.read (8 * ts.length + 8) (.attributes true)
    Phrase.read (8 * ts.length + 8) .items
  Reader.whole? unit ts

end Templating.Code
