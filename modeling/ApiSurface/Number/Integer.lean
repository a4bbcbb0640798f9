/-
ApiSurface.Number.Integer — integers in decimal notation, and to other bases.

A numeral may have a sign, padding at its ends, digits of any script and single
underscores between digits. A decimal numeral of more than `maxDigits` digits is
refused, which bounds the work of reading one. To the bases two, eight and
sixteen a numeral may start with a zero and a letter that says so.
-/
import ApiSurface.Number.Digit
import ApiSurface.Text.Hex

namespace ApiSurface.Number

/-- The greatest count of digits that a numeral may have. -/
def maxDigits : Nat := 4300

/-- The integer that a numeral spells. -/
def integer? (s : String) : Option Int := do
  let (negative, body) := splitSign (plainNumeral s)
  let body ← dropUnderscores? body
  if body.isEmpty || !body.all isDigit || body.length > maxDigits then none
  else some (if negative then -(ofDigits body : Int) else (ofDigits body : Int))

/-- A base whose digits are groups of bits. -/
inductive BitBase where
  | two | eight | sixteen
deriving DecidableEq

namespace BitBase

/-- The base as a number. -/
def size : BitBase → Nat
  | two => 2
  | eight => 8
  | sixteen => 16

/-- The letter behind a zero that announces the base. -/
def letter : BitBase → Char
  | two => 'b'
  | eight => 'o'
  | sixteen => 'x'

/-- The value of a digit to the base. -/
def digit? (base : BitBase) (c : Char) : Option Nat :=
  (Text.Hex.value? c).filter (· < base.size)

/-- Digits without the announcement of the base in front of them. -/
def withoutLetter (base : BitBase) : List Char → List Char
  | '0' :: c :: rest =>
    if c = base.letter || c = base.letter.toUpper then rest else '0' :: c :: rest
  | s => s

/-- The number that digits to the base spell. -/
def natural? (base : BitBase) (s : List Char) : Option Nat :=
  if s.isEmpty then none
  else s.foldl (fun n c => do return (← n) * base.size + (← base.digit? c)) (some 0)

/-- The integer that a numeral without underscores spells to the base. -/
def integer? (base : BitBase) (s : String) : Option Int := do
  let (negative, body) := splitSign (plainNumeral s)
  let n ← base.natural? (base.withoutLetter body)
  return if negative then -(n : Int) else n

end BitBase

/-- An integer in decimal notation. -/
def integerChars : Int → List Char
  | .ofNat n => digits n
  | .negSucc n => '-' :: digits (n + 1)

/-- An integer in decimal notation, as a string. -/
def integerText (n : Int) : String :=
  String.ofList (integerChars n)

end ApiSurface.Number
