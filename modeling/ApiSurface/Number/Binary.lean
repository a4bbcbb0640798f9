/-
ApiSurface.Number.Binary — binary floating-point numbers as exact rationals.

A format fixes how many bits hold the fraction and how many the exponent. A bit
pattern stands for a datum: not a number, an infinity, or a finite number
`coeff * 2 ^ exponent` with a sign. `nearest` goes the other way: it gives the
pattern of the number of the format that lies nearest to a fraction, the even
one of two equally near, and the pattern of infinity past the greatest number.

All arithmetic is on naturals, so nothing here rounds except `nearest`. A sum or
product of two doubles is the double nearest to the exact one.
-/

namespace ApiSurface.Number

/-- A binary interchange format. -/
structure Format where
  /-- Bits of the fraction. -/
  fractionBits : Nat
  /-- Bits of the exponent. -/
  exponentBits : Nat

/-- What a bit pattern stands for. -/
inductive Datum where
  | nan
  | infinite (negative : Bool)
  /-- The number `coeff * 2 ^ exponent`, or its negation. -/
  | finite (negative : Bool) (coeff : Nat) (exponent : Int)
deriving DecidableEq

namespace Format

/-- Double precision. -/
def double : Format := ⟨52, 11⟩

/-- Single precision. -/
def single : Format := ⟨23, 8⟩

/-- The count of exponent patterns. -/
def exponents (f : Format) : Nat := Nat.pow 2 f.exponentBits

/-- The exponent of the least positive number. -/
def leastExponent (f : Format) : Int :=
  2 - (Nat.pow 2 (f.exponentBits - 1) : Int) - f.fractionBits

/-- The pattern of positive infinity. -/
def infinity (f : Format) : Nat := (f.exponents - 1) * Nat.pow 2 f.fractionBits

/-- The pattern of the sign alone. -/
def signBit (f : Format) : Nat := f.exponents * Nat.pow 2 f.fractionBits

/-- The pattern of one value that is not a number. -/
def quietNan (f : Format) : Nat := f.infinity + Nat.pow 2 (f.fractionBits - 1)

/-- What a pattern stands for. -/
def datum (f : Format) (bits : Nat) : Datum :=
  let fraction := bits % Nat.pow 2 f.fractionBits
  let biased := bits / Nat.pow 2 f.fractionBits % f.exponents
  let negative := decide (bits / f.signBit % 2 = 1)
  if biased = f.exponents - 1 then
    if fraction = 0 then .infinite negative else .nan
  else if biased = 0 then .finite negative fraction f.leastExponent
  else
    .finite negative (Nat.pow 2 f.fractionBits + fraction) (f.leastExponent + (biased - 1 : Nat))

/-- A quotient rounded to the nearest natural, to the even one of two. -/
def roundDiv (num den : Nat) : Nat :=
  let q := num / den
  let r := num % den
  if 2 * r < den then q
  else if den < 2 * r then q + 1
  else if q % 2 = 0 then q else q + 1

/-- The fraction `num / den * 2 ^ (-e)` as numerator and denominator. -/
def scaled (num den : Nat) (e : Int) : Nat × Nat :=
  if 0 ≤ e then (num, den * Nat.pow 2 e.toNat) else (num * Nat.pow 2 (-e).toNat, den)

/-- The pattern of the nonnegative number nearest to `num / den`. -/
def nearest (f : Format) (num den : Nat) : Nat :=
  if num = 0 then 0
  else
    let guess := (num.log2 : Int) - den.log2 - f.fractionBits
    let (n, d) := scaled num den guess
    let isBelow := decide (n / d < Nat.pow 2 f.fractionBits)
    let exponent := max f.leastExponent (if isBelow then guess - 1 else guess)
    let (n, d) := scaled num den exponent
    min f.infinity ((exponent - f.leastExponent).toNat * Nat.pow 2 f.fractionBits + roundDiv n d)

/-- The pattern with a sign put before a nonnegative number's pattern. -/
def withSign (f : Format) (negative : Bool) (magnitude : Nat) : Nat :=
  if negative then f.signBit + magnitude else magnitude

end Format

/-- The fraction `coeff * 2 ^ exponent` as numerator and denominator. -/
def ratio (coeff : Nat) (exponent : Int) : Nat × Nat :=
  if 0 ≤ exponent then (coeff * Nat.pow 2 exponent.toNat, 1)
  else (coeff, Nat.pow 2 (-exponent).toNat)

/-- A double-precision number by its bit pattern. -/
structure Double where
  bits : UInt64
deriving DecidableEq

namespace Double

/-- What a double stands for. -/
def datum (x : Double) : Datum := Format.double.datum x.bits.toNat

/-- The double with a pattern given as a natural. -/
def ofPattern (bits : Nat) : Double := ⟨UInt64.ofNat bits⟩

/-- The double nearest to a signed fraction. -/
def nearest (negative : Bool) (num den : Nat) : Double :=
  ofPattern (Format.double.withSign negative (Format.double.nearest num den))

/-- Infinity of either sign. -/
def infinity (negative : Bool) : Double :=
  ofPattern (Format.double.withSign negative Format.double.infinity)

/-- One double that is not a number. -/
def nan : Double := ofPattern Format.double.quietNan

/-- The double of the same value as a single-precision pattern. -/
def ofSingle (bits : Nat) : Double :=
  match Format.single.datum bits with
  | .nan => nan
  | .infinite negative => infinity negative
  | .finite negative coeff exponent =>
    let (num, den) := ratio coeff exponent
    nearest negative num den

/-- The double nearest to an integer. -/
def ofInteger (n : Int) : Double :=
  nearest (decide (n < 0)) n.natAbs 1

/-- Whether a double is positive or negative zero. -/
def isZero (x : Double) : Bool :=
  match x.datum with
  | .finite _ 0 _ => true
  | _ => false

/-- Whether a double is infinite. -/
def isInfinite (x : Double) : Bool :=
  match x.datum with
  | .infinite _ => true
  | _ => false

/-- A double of the other sign. -/
def negated (x : Double) : Double := ⟨x.bits ^^^ 0x8000000000000000⟩

/-- The product of two doubles. -/
def mul (x y : Double) : Double :=
  match x.datum, y.datum with
  | .nan, _ | _, .nan => nan
  | .infinite s, .infinite t => infinity (s != t)
  | .infinite s, .finite t coeff _ => if coeff = 0 then nan else infinity (s != t)
  | .finite s coeff _, .infinite t => if coeff = 0 then nan else infinity (s != t)
  | .finite s c e, .finite t c' e' =>
    let (num, den) := ratio (c * c') (e + e')
    nearest (s != t) num den

/-- The sum of two doubles. A sum of nothing is negative only if both parts are. -/
def add (x y : Double) : Double :=
  match x.datum, y.datum with
  | .nan, _ | _, .nan => nan
  | .infinite s, .infinite t => if s = t then infinity s else nan
  | .infinite s, .finite _ _ _ => infinity s
  | .finite _ _ _, .infinite t => infinity t
  | .finite s c e, .finite t c' e' =>
    let low := min e e'
    let part (negative : Bool) (coeff : Nat) (exponent : Int) : Int :=
      let n : Int := (coeff * Nat.pow 2 (exponent - low).toNat : Nat)
      if negative then -n else n
    let sum := part s c e + part t c' e'
    let (num, den) := ratio sum.natAbs low
    nearest (if sum = 0 then s && t else decide (sum < 0)) num den

/-- The single-precision pattern nearest to a double; `none` when a finite
double rounds to infinity. -/
def toSingle? (x : Double) : Option Nat :=
  match x.datum with
  | .nan => some Format.single.quietNan
  | .infinite negative => some (Format.single.withSign negative Format.single.infinity)
  | .finite negative coeff exponent =>
    let (num, den) := ratio coeff exponent
    let magnitude := Format.single.nearest num den
    if magnitude = Format.single.infinity then none
    else some (Format.single.withSign negative magnitude)

end Double

end ApiSurface.Number
