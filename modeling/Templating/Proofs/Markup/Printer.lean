import Templating.Markup.Reading

/-! The core of the template grammar as trees of their own, and the text that such a tree is printed
as. A tree is printable in front of a text if the scan of each of its fragments, run where the
fragment is printed, ends at the boundary that was printed after it, and if no two neighbours can be
taken for something else. -/
namespace Templating.Markup
open Text (trim trimStart leadingName startsWithWord isAlphanumeric)

/-- A tree without places. -/
inductive Core where
  | text (text : String)
  | expression (code : String)
  | comment (text : String)
  /-- A loop, or an `if` with the branches chained to it. -/
  | control (branches : List (Clause Core))
  | choice (scrutinee : String) (arms : List (Clause Core))

def escape : List Char → List Char
  | [] => []
  | c :: cs => if c == '@' then '@' :: '@' :: escape cs else c :: escape cs

/- What stands between the head of a clause, the space after it, and the body. -/
def ofBranch : List Char := ['\x7b']
def ofArm : List Char := ['=', '>', ' ', '\x7b']

mutual

def Core.print : Core → List Char
  | .text s => escape s.toList
  | .expression code => '@' :: '(' :: code.toList ++ [')']
  | .comment s => '@' :: '*' :: s.toList ++ ['*', '@']
  | .control branches => '@' :: printClauses ofBranch [] branches
  | .choice scrutinee arms =>
    ['@', 'm', 'a', 't', 'c', 'h', ' '] ++ scrutinee.toList ++ ' ' :: '\x7b' ::
      printClauses ofArm [] arms ++ ['\x7d']

def printAll : List Core → List Char
  | [] => []
  | t :: ts => t.print ++ printAll ts

def printClauses (link : List Char) : List Char → List (Clause Core) → List Char
  | _, [] => []
  | lead, ⟨head, body⟩ :: cs =>
    lead ++ head.toList ++ ' ' :: link ++ printAll body ++ '\x7d' :: printClauses link [' '] cs

end

def EndsAt (stop : Code.Stop) (code after : List Char) : Prop :=
  Code.scan stop none (code ++ after) = .ok code

def balanced : Nat → List Char → Bool
  | depth, [] => depth == 0
  | depth, c :: cs =>
    if c == '\x7b' then balanced (depth + 1) cs
    else if c == '\x7d' then depth != 0 && balanced (depth - 1) cs
    else balanced depth cs

def chainWord : List Char := ['e', 'l', 's', 'e']

/-- Whether a text goes on with a further branch of an `if`. -/
def chains (cs : List Char) : Bool := startsWithWord chainWord (trimStart cs)

/-- The heads say what the branches are: a chain that the text after it does not
continue, or one loop. -/
def Headed (after : List Char) : List (Clause Core) → Prop
  | [] => False
  | ⟨head, _⟩ :: others =>
    leadingName head.toList = ['i', 'f'] ∧
      (∀ b ∈ others, startsWithWord chainWord b.head.toList) ∧ ¬ chains after ∨
    (leadingName head.toList = ['f', 'o', 'r'] ∨ leadingName head.toList =
      ['w', 'h', 'i', 'l', 'e']) ∧ others = []

def beginsArm : List Char → Bool
  | [] => false
  | c :: _ => c != ',' && c != '\x7d'

/-- Texts do not meet, and no letter or digit stands right before a keyword. -/
def Apart : Core → List Core → Prop
  | .text _, .text _ :: _ => False
  | .text s, .control _ :: _ | .text s, .choice _ _ :: _ => ¬ s.toList.getLast?.any isAlphanumeric
  | _, _ => True

mutual

/-- Whether a tree can be printed in front of a text and read back. -/
def Core.Printable (scope : Scope) (after : List Char) : Core → Prop
  | .text s => s.toList ≠ [] ∧ '<' ∉ s.toList ∧ (scope = .nested → balanced 0 s.toList)
  | .expression code =>
    trim code.toList = code.toList ∧ EndsAt (.closer ')') code.toList (')' :: after)
  | .comment s => ¬ ['*', '@'] <:+: s.toList
  | .control branches => Headed after branches ∧ ClausesPrintable .openBrace ofBranch after branches
  | .choice scrutinee arms =>
    trim scrutinee.toList = scrutinee.toList ∧
      EndsAt .openBrace (scrutinee.toList ++ [' '])
        ('\x7b' :: printClauses ofArm [] arms ++ '\x7d' :: after) ∧
      (∀ a ∈ arms, beginsArm a.head.toList) ∧
        ClausesPrintable .fatArrow ofArm ('\x7d' :: after) arms

def AllPrintable (scope : Scope) (after : List Char) : List Core → Prop
  | [] => True
  | t :: ts => t.Printable scope (printAll ts ++ after) ∧ Apart t ts ∧ AllPrintable scope after ts

def ClausesPrintable (stop : Code.Stop) (link after : List Char) : List (Clause Core) → Prop
  | [] => True
  | ⟨head, body⟩ :: cs =>
    trim head.toList = head.toList ∧
      EndsAt stop (head.toList ++ [' '])
        (link ++ printAll body ++ '\x7d' :: printClauses link [' '] cs ++ after) ∧
      AllPrintable .nested ('\x7d' :: printClauses link [' '] cs ++ after) body ∧
      ClausesPrintable stop link after cs

end

mutual

/-- A node agrees with a tree, wherever it was read. Of a comment nothing but itself is kept. -/
def Core.Agrees : Core → Node → Prop
  | .text s, .markup t => t = s
  | .expression code, .expression c => c = code
  | .comment _, .comment => True
  | .control branches, .control cs => ClausesAgree branches cs
  | .choice scrutinee arms, .choice s cs => s = scrutinee ∧ ClausesAgree arms cs
  | _, _ => False

def AllAgree : List Core → Nodes → Prop
  | [], [] => True
  | t :: ts, ⟨n, _⟩ :: ns => t.Agrees n ∧ AllAgree ts ns
  | _, _ => False

def ClausesAgree : List (Clause Core) → List (Clause (Located Node)) → Prop
  | [], [] => True
  | ⟨head, body⟩ :: cs, ⟨h, nodes⟩ :: ds => h = head ∧ AllAgree body nodes ∧ ClausesAgree cs ds
  | _, _ => False

end

end Templating.Markup
