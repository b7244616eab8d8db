import Templating.Text.Visible

/-!
Quoted text: between double quotes, on one line, every character that would not show written by its
number.
-/

namespace Templating.Text

def hexDigit (n : Nat) : Char := Nat.digitChar (n % 16)

/-- A code point in braces, in lower-case hexadecimal without leading zeros. -/
def numbered (c : Char) : List Char :=
  ['\\', 'u', '\x7b'] ++ Nat.toDigits 16 c.toNat ++ ['\x7d']

def isHidden (c : Char) : Bool :=
  c.toNat < 0x20 || c.toNat == 0x7f ||
    (0x80 ≤ c.toNat && (Visible.extending.holds c || Visible.hidden.holds c))

/-- How a character stands between two marks of the given kind. -/
def escape (mark c : Char) : List Char :=
  match c with
  | '\x00' => ['\\', '0']
  | '\t' => ['\\', 't']
  | '\r' => ['\\', 'r']
  | '\n' => ['\\', 'n']
  | '\\' => ['\\', '\\']
  | c => if c == mark then ['\\', c] else if isHidden c then numbered c else [c]

def quoted (s : String) : String :=
  .ofList ('"' :: s.toList.flatMap (escape '"') ++ ['"'])

def quotedChar (c : Char) : String :=
  .ofList ('\'' :: escape '\'' c ++ ['\''])

end Templating.Text
