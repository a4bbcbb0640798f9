/-
ApiSurface.Number.Decimal — decimal notation of binary floating-point numbers.

A positive number lies between two neighbours on each decimal grid: the numbers
with `n` significant digits at its magnitude. `rounded` takes the nearer of the
two, the even one in a tie. `shortest` takes the coarsest grid on which a
neighbour reads back as the same double, and there the nearer of those that do.

A `Decimal` is such a grid point. Its `significant` digits carry no zeros at the
end, and `power` is the exponent of its first digit; every written form is a
layout of these two.
-/
import ApiSurface.Number.Binary
import ApiSurface.Number.Digit

namespace ApiSurface.Number

/-- The number `coeff * 10 ^ exponent`. -/
structure Decimal where
  coeff : Nat
  exponent : Int
deriving DecidableEq

namespace Decimal

/-- A decimal as numerator and denominator. -/
def ratio (d : Decimal) : Nat × Nat :=
  if 0 ≤ d.exponent then (d.coeff * Nat.pow 10 d.exponent.toNat, 1)
  else (d.coeff, Nat.pow 10 (-d.exponent).toNat)

/-- Digits without the zeros at their end. -/
def stripZeros (l : List Char) : List Char :=
  (l.reverse.dropWhile (· == '0')).reverse

/-- The significant digits, without zeros at the end. -/
def significant (d : Decimal) : List Char :=
  stripZeros (digits d.coeff)

/-- The exponent of the first digit. -/
def power (d : Decimal) : Int :=
  d.exponent + (digits d.coeff).length - 1

/-- The exponent of the first digit of the positive number `num / den`. -/
def magnitude (num den : Nat) : Int :=
  if den ≤ num then (digits (num / den)).length - 1
  else -((digits ((den + num - 1) / num - 1)).length : Int)

/-- The greatest point of the grid of `n` digits not above `num / den`, and the
numerator and denominator of what is left of one grid step. -/
def below (num den n : Nat) : Decimal × Nat × Nat :=
  let exponent := magnitude num den - (n - 1 : Nat)
  let (a, b) := if 0 ≤ exponent then (num, den * Nat.pow 10 exponent.toNat)
    else (num * Nat.pow 10 (-exponent).toNat, den)
  (⟨a / b, exponent⟩, a % b, b)

/-- The next point of the same grid. -/
def next (d : Decimal) : Decimal := ⟨d.coeff + 1, d.exponent⟩

/-- The point of the grid of `n` digits nearest to `num / den`. -/
def rounded (num den n : Nat) : Decimal :=
  let (lower, rest, step) := below num den n
  if 2 * rest < step then lower
  else if step < 2 * rest then lower.next
  else if lower.coeff % 2 = 0 then lower else lower.next

/-- Whether a decimal reads back as a given nonnegative double. -/
def readsBack (pattern : Nat) (d : Decimal) : Bool :=
  let (num, den) := d.ratio
  Format.double.nearest num den == pattern

/-- The nearest point of the grid of `n` digits that reads back as the double
with the given pattern and value, if one does. -/
def onGrid (pattern num den n : Nat) : Option Decimal :=
  let (lower, rest, step) := below num den n
  match readsBack pattern lower, readsBack pattern lower.next with
  | true, true =>
    some (if 2 * rest < step then lower
      else if step < 2 * rest then lower.next
      else if lower.coeff % 2 = 0 then lower else lower.next)
  | true, false => some lower
  | false, true => some lower.next
  | false, false => none

/-- The shortest decimal that reads back as the positive double with the given
pattern and value. Seventeen digits always suffice. -/
def shortest (pattern num den : Nat) : Decimal :=
  ((List.range' 1 17).findSome? (onGrid pattern num den)).getD (rounded num den 17)

end Decimal

/-- How a decimal is laid out around its point. -/
structure Layout where
  /-- The least power of ten written without an exponent. -/
  leastPlain : Int
  /-- The first power of ten written with an exponent. -/
  firstScientific : Int
  /-- The mark before the exponent. -/
  mark : Char
  /-- Whether one zero stands behind the point of a mantissa of one digit. -/
  pointInMantissa : Bool
  /-- Whether an exponent shows a plus sign and two digits at least. -/
  longExponent : Bool

namespace Layout

/-- Digits with a point after the digit of power zero, and a digit on both sides. -/
def plain (digits : List Char) (power : Int) : List Char :=
  if power < 0 then
    '0' :: '.' :: (List.replicate ((-power).toNat - 1) '0' ++ digits)
  else
    let whole := power.toNat + 1
    let digits := digits ++ List.replicate (whole - digits.length) '0'
    let behind := digits.drop whole
    digits.take whole ++ '.' :: (if behind.isEmpty then ['0'] else behind)

/-- The exponent of scientific notation. -/
def exponentChars (l : Layout) (power : Int) : List Char :=
  let body := digits power.natAbs
  if l.longExponent then
    (if power < 0 then '-' else '+') :: (if body.length < 2 then '0' :: body else body)
  else if power < 0 then '-' :: body else body

/-- Digits with one before the point, and the power of ten after a mark. -/
def scientific (l : Layout) (digits : List Char) (power : Int) : List Char :=
  let behind := digits.drop 1
  let mantissa :=
    if behind.isEmpty then digits ++ (if l.pointInMantissa then ['.', '0'] else [])
    else digits.take 1 ++ '.' :: behind
  mantissa ++ l.mark :: l.exponentChars power

/-- The layout of significant digits whose first has the given power of ten. -/
def write (l : Layout) (digits : List Char) (power : Int) : List Char :=
  if l.leastPlain ≤ power && power < l.firstScientific then plain digits power
  else l.scientific digits power

/-- Diagnostics and settings write powers from 10⁻⁴ to 10¹⁵ without an exponent. -/
def diagnostic : Layout where
  leastPlain := -4
  firstScientific := 16
  mark := 'e'
  pointInMantissa := false
  longExponent := true

end Layout

namespace Double

/-- A double in the shortest decimal notation that reads back. -/
def text (x : Double) : String :=
  match x.datum with
  | .nan => "nan"
  | .infinite negative => if negative then "-inf" else "inf"
  | .finite negative coeff exponent =>
    let sign := if negative then ['-'] else []
    if coeff = 0 then String.ofList (sign ++ ['0', '.', '0'])
    else
      let (num, den) := Number.ratio coeff exponent
      let d := Decimal.shortest (x.bits.toNat % Format.double.signBit) num den
      String.ofList (sign ++ Layout.diagnostic.write d.significant d.power)

end Double

end ApiSurface.Number
