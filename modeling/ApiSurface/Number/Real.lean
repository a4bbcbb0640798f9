/-
ApiSurface.Number.Real — reading real numerals.

A real numeral is an optional sign and then `inf`, `infinity` or `nan` in any
case, or decimal digits with an optional point and an optional exponent; at
least one digit stands before the exponent. Padding, underscores and the digits
of other scripts are allowed as for integers. The result is the double nearest
to the number spelled.
-/
import ApiSurface.Number.Decimal

namespace ApiSurface.Number

/-- The double nearest to `coeff * 10 ^ exponent`, or to its negation. Powers of
ten that are far outside the range of doubles are not computed. -/
def Double.ofDecimal (negative : Bool) (coeff : Nat) (exponent : Int) : Double :=
  let size := (digits coeff).length + exponent
  if coeff = 0 || size < -400 then nearest negative 0 1
  else if 400 < size then infinity negative
  else
    let (num, den) := Decimal.ratio ⟨coeff, exponent⟩
    nearest negative num den

/-- Lower case for the letters of ASCII. -/
def lowerAscii (c : Char) : Char :=
  if 'A' ≤ c ∧ c ≤ 'Z' then Char.ofNat (c.toNat + 32) else c

/-- The exponent part of a numeral: nothing, or a mark, a sign and digits. -/
def exponentPart? : List Char → Option Int
  | [] => some 0
  | mark :: rest =>
    if lowerAscii mark = 'e' then
      let (negative, body) := splitSign rest
      if body.isEmpty || !body.all isDigit then none
      else some (if negative then -(ofDigits body : Int) else (ofDigits body : Int))
    else none

/-- The decimal that an unsigned numeral spells, as a coefficient and a power of ten. -/
def decimalPart? (body : List Char) : Option (Nat × Int) := do
  let whole := body.takeWhile isDigit
  let rest := body.dropWhile isDigit
  let (behind, rest) := (match rest with
    | '.' :: r => (r.takeWhile isDigit, r.dropWhile isDigit)
    | r => ([], r) : List Char × List Char)
  if whole.isEmpty && behind.isEmpty then none
  else
    let exponent ← exponentPart? rest
    some (ofDigits (whole ++ behind), exponent - behind.length)

/-- The double that a real numeral spells. -/
def Double.ofNumeral? (s : String) : Option Double := do
  let plain ← dropUnderscores? (plainNumeral s)
  let (negative, body) := splitSign plain
  let word := String.ofList (body.map lowerAscii)
  if word = "nan" then some Double.nan
  else if word = "inf" || word = "infinity" then some (Double.infinity negative)
  else
    let (coeff, exponent) ← decimalPart? body
    some (Double.ofDecimal negative coeff exponent)

end ApiSurface.Number
