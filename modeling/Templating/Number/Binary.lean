/-!
Binary floating-point numbers, exactly: their formats, the number of a format nearest to a fraction,
and how a numeral is read.
-/

namespace Templating.Number

/-- How many bits the significands of a format have, and the least and greatest exponents of their
last bit. -/
structure Format where
  precision : Nat
  least : Int
  greatest : Int
  deriving DecidableEq, Repr

namespace Format

def single : Format := ⟨24, -149, 104⟩

def double : Format := ⟨53, -1074, 971⟩

def limit (f : Format) : Nat := Nat.pow 2 f.precision

/-- The least significand that fills every bit. -/
def half (f : Format) : Nat := Nat.pow 2 (f.precision - 1)

end Format

/-- A number of a format. A finite one is the significand times two to the exponent. -/
inductive Binary where
  | nan
  | infinite (negative : Bool)
  | finite (negative : Bool) (significand : Nat) (exponent : Int)
  deriving DecidableEq, Repr, Inhabited

/-- A fraction, of which the denominator is not zero. -/
structure Fraction where
  numerator : Nat
  denominator : Nat
  deriving Repr

namespace Fraction

def scale (base : Nat) (v : Fraction) : Int → Fraction
  | .ofNat k => ⟨v.numerator * base.pow k, v.denominator⟩
  | .negSucc k => ⟨v.numerator, v.denominator * base.pow (k + 1)⟩

def floor (v : Fraction) : Nat := v.numerator / v.denominator

/-- The nearest whole number; of two, the even one. -/
def round (v : Fraction) : Nat :=
  let rest := 2 * (v.numerator % v.denominator)
  let n := v.floor
  if rest < v.denominator || (rest == v.denominator && n % 2 == 0) then n else n + 1

def le (v w : Fraction) : Bool := v.numerator * w.denominator ≤ w.numerator * v.denominator

def lt (v w : Fraction) : Bool := v.numerator * w.denominator < w.numerator * v.denominator

end Fraction

namespace Binary

/-- The number nearest to a fraction; of two, the one with an even significand. -/
def nearest (f : Format) (negative : Bool) (v : Fraction) : Binary :=
  if v.numerator == 0 then finite negative 0 f.least else
  let high := (v.numerator.log2 : Int) - v.denominator.log2
  let low := max f.least (high - f.precision)
  let exponent := if (v.scale 2 (-low)).floor < f.limit then low else low + 1
  let significand := (v.scale 2 (-exponent)).round
  let (significand, exponent) :=
    if significand == f.limit then (f.half, exponent + 1) else (significand, exponent)
  if exponent > f.greatest then infinite negative else finite negative significand exponent

end Binary

namespace Numeral

def value (ds : List Char) : Nat := Nat.ofDigitChars 10 ds 0

def sign : List Char → Bool × List Char
  | '-' :: cs => (true, cs)
  | '+' :: cs => (false, cs)
  | cs => (false, cs)

def integer? (s : String) : Option Int :=
  let (negative, ds) := sign s.toList
  if ds.isEmpty || !ds.all Char.isDigit then none
  else some (if negative then -(value ds : Int) else value ds)

def exponent? : List Char → Option Int
  | [] => some 0
  | e :: cs =>
    if e == 'e' || e == 'E' then
      let (negative, ds) := sign cs
      if ds.isEmpty || !ds.all Char.isDigit then none
      else some (if negative then -(value ds : Int) else value ds)
    else none

/-- Digits with a point and an exponent: a whole number, and the power of ten that it is to be
multiplied with. -/
def decimal? (cs : List Char) : Option (Nat × Int) := do
  let whole := cs.takeWhile Char.isDigit
  let rest := cs.dropWhile Char.isDigit
  let (places, rest) := match rest with
    | '.' :: rest => (rest.takeWhile Char.isDigit, rest.dropWhile Char.isDigit)
    | rest => ([], rest)
  if whole.isEmpty && places.isEmpty then none
  else return (value (whole ++ places), (← exponent? rest) - places.length)

/-- The number of a format nearest to a numeral. Numerals beyond all numbers of the format are not
worked out. -/
def binary? (f : Format) (s : String) : Option Binary :=
  let (negative, cs) := sign s.toList
  match String.ofList (cs.map Char.toLower) with
  | "nan" => some .nan
  | "inf" => some (.infinite negative)
  | "infinity" => some (.infinite negative)
  | _ => (decimal? cs).map fun (n, e) =>
    let size := e + (toString n).length
    if n == 0 || size < f.least - 1 then .finite negative 0 f.least
    else if size - 1 > f.greatest + f.precision then .infinite negative
    else .nearest f negative (Fraction.scale 10 ⟨n, 1⟩ e)

end Numeral

end Templating.Number
