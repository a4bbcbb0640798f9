/-
ApiSurface.ClassFile.Scalar — numbers and texts of the pool, and what they are
used for.

A loadable pool entry is a number or a text. Where a use asks for an integer, a
real number, a truth value or a character, a scalar of another kind is converted
if that makes sense: a text is read as a numeral, a real number loses its
fraction. What cannot be converted is an `IllTyped` fault.
-/
import ApiSurface.ClassFile.Fault
import ApiSurface.Number.Real

namespace ApiSurface

open Number (Double)

/-- A number or a text of the pool. -/
inductive Scalar where
  | integer (n : Int)
  | real (x : Double)
  | text (s : String)

namespace Scalar

/-- The scalar as a value of its own kind. -/
def value : Scalar → Value
  | integer n => .integer n
  | real x => .real x
  | text s => .text (Text.ofString s)

/-- The whole part of a real number. -/
def wholePart (x : Double) : Except IllTyped Int :=
  match x.datum with
  | .nan => .error .integerOfNan
  | .infinite _ => .error .integerOfInfinity
  | .finite negative coeff exponent =>
    let (num, den) := Number.ratio coeff exponent
    let whole : Int := (num / den : Nat)
    .ok (if negative then -whole else whole)

/-- The scalar as an integer. -/
def toInteger : Scalar → Except IllTyped Int
  | integer n => .ok n
  | real x => wholePart x
  | text s =>
    match Number.integer? s with
    | some n => .ok n
    | none => .error (.notNumeral s)

/-- The scalar as a real number. -/
def toReal : Scalar → Except IllTyped Double
  | integer n => .ok (Double.ofInteger n)
  | real x => .ok x
  | text s =>
    match Double.ofNumeral? s with
    | some x => .ok x
    | none => .error (.notNumeral s)

/-- The scalar as a truth value: zero and the empty text are false. -/
def truth : Scalar → Bool
  | integer n => n != 0
  | real x => !x.isZero
  | text s => s != ""

/-- The scalar as a text of one code point. -/
def toCharacter : Scalar → Except IllTyped Text
  | integer n =>
    if n < -0x80000000 || 0x80000000 ≤ n then .error (.characterTooLarge n)
    else if n < 0 then .error (.characterOutOfRange n)
    else
      match CodePoint.ofNat? n.toNat with
      | some p => .ok [p]
      | none => .error (.characterOutOfRange n)
  | real _ | text _ => .error .characterOfOther

/-- The value of a field constant: truth values and characters are stored as numbers. -/
def fieldValue (descriptor : String) (s : Scalar) : Except IllTyped Value :=
  if descriptor = "Z" then .ok (.boolean s.truth)
  else if descriptor = "C" then s.toCharacter.map .text
  else .ok s.value

end Scalar

end ApiSurface
