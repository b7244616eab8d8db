import Templating.Text.Letter

/-!
Letters, digits and the names made of them.
-/

namespace Templating.Text

def isAlphabetic (c : Char) : Bool := c.isAlpha || (0x80 ≤ c.toNat && Letter.alphabetic.holds c)

def isNumeric (c : Char) : Bool := c.isDigit || (0x80 ≤ c.toNat && Letter.numeric.holds c)

def isAlphanumeric (c : Char) : Bool := isAlphabetic c || isNumeric c

def startsName (c : Char) : Bool := isAlphabetic c || c == '_'

def continuesName (c : Char) : Bool := isAlphanumeric c || c == '_'

theorem continuesName_of_startsName {c : Char} (h : startsName c) : continuesName c := by
  simp only [startsName, continuesName, isAlphanumeric, Bool.or_eq_true] at h ⊢
  rcases h with h | h <;> simp [h]

def leadingName : List Char → List Char
  | [] => []
  | c :: cs => if startsName c then c :: cs.takeWhile continuesName else []

def startsWithWord (word cs : List Char) : Bool :=
  word.isPrefixOf cs && !(cs.drop word.length).head?.any continuesName

end Templating.Text
