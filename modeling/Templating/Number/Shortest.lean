import Templating.Number.Binary

/-!
The shortest decimal text of a binary number: the fewest digits that lie nearer to it than to any
other number of its format, and of those the nearest to it. The digits are written in full, without
an exponent.
-/

namespace Templating.Number

/-- A whole number times a power of ten. -/
structure Decimal where
  digits : Nat
  exponent : Int
  deriving DecidableEq, Repr, Inhabited

def Decimal.fraction (d : Decimal) : Fraction := Fraction.scale 10 ⟨d.digits, 1⟩ d.exponent

/-- The fractions that read as a number: those between the ends, and the ends too if the number's
significand is even. -/
structure Neighbourhood where
  low : Fraction
  centre : Fraction
  high : Fraction
  closed : Bool
  deriving Repr

namespace Neighbourhood

/-- All that rounds to a positive number. Below a power of two the next number is
half as far away. -/
def of (f : Format) (significand : Nat) (exponent : Int) : Neighbourhood :=
  let quarter (n : Nat) : Fraction := Fraction.scale 2 ⟨n, 1⟩ (exponent - 2)
  let uneven := significand == f.half && exponent > f.least
  { low := quarter (4 * significand - if uneven then 1 else 2), centre := quarter (4 * significand)
    high := quarter (4 * significand + 2), closed := significand % 2 == 0 }

def holds (n : Neighbourhood) (v : Fraction) : Bool :=
  if n.closed then n.low.le v && v.le n.high else n.low.lt v && v.lt n.high

/-- The number of a decimal grid that is nearest to the centre, of those next to it that lie in the
neighbourhood; of two, the greater. -/
def hit? (n : Neighbourhood) (exponent : Int) : Option Decimal :=
  let below : Decimal := ⟨(n.centre.scale 10 (-exponent)).floor, exponent⟩
  let above : Decimal := { below with digits := below.digits + 1 }
  let nearer := ((n.centre.scale 10 (-exponent)).scale 2 1).floor % 2 == 0
  match n.holds below.fraction, n.holds above.fraction with
  | true, true => some (if nearer then below else above)
  | true, false => some below
  | false, true => some above
  | false, false => none

def top (n : Neighbourhood) : Int :=
  let digits (v : Nat) : Int := (toString v).length
  if n.centre.floor == 0 then 1 - digits (Fraction.floor ⟨n.centre.denominator, n.centre.numerator⟩)
  else digits n.centre.floor

/-- The first hit from coarse grids to fine ones. -/
def shortest (f : Format) (n : Neighbourhood) : Decimal :=
  ((List.range (f.precision + 2)).findSome? fun (i : Nat) =>
    n.hit? (n.top - (i : Int))).getD default

end Neighbourhood

def Decimal.text (d : Decimal) : String :=
  let ds := (toString d.digits).toList
  match d.exponent with
  | .ofNat k => .ofList (if d.digits == 0 then ['0'] else ds ++ List.replicate k '0')
  | .negSucc k =>
    let ds := List.replicate (k + 2 - ds.length) '0' ++ ds
    .ofList (ds.take (ds.length - (k + 1)) ++ '.' :: ds.drop (ds.length - (k + 1)))

def Binary.text (f : Format) : Binary → String
  | nan => "NaN"
  | infinite negative => if negative then "-inf" else "inf"
  | finite negative significand exponent =>
    (if negative then "-" else "") ++
      if significand == 0 then "0" else ((Neighbourhood.of f significand exponent).shortest f).text

end Templating.Number
