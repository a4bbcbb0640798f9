/-
ApiSurface.Yaml.Numeral — the numbers that texts marked as numbers spell.

The forms of plain numbers are narrow, but a tag may mark any text as a number.
Then underscores are dropped wherever they are, and one sign in front. What is
left is read by its first characters: binary, hexadecimal or octal behind a
zero, to base sixty with colons, and decimal otherwise. The places to base sixty
are numerals of their own and may have signs too.
-/
import ApiSurface.Number.Integer
import ApiSurface.Number.Real
import ApiSurface.Yaml.Cursor
import ApiSurface.Yaml.Tag

namespace ApiSurface.Yaml

open Number (BitBase Double)

/-- A text without its underscores. -/
def withoutUnderscores (s : String) : List Char := s.toList.filter (· != '_')

/-! ## 1. Integers -/

/-- The sum of numbers to base sixty, the most significant first. -/
def ofSixtieths (places : List Int) : Int :=
  places.foldl (fun n place => 60 * n + place) 0

/-- The integer that an unsigned text without underscores spells. -/
def unsignedInteger? (s : List Char) : Option Int :=
  match s with
  | ['0'] => some 0
  | '0' :: 'b' :: rest => BitBase.two.integer? (String.ofList rest)
  | '0' :: 'x' :: rest => BitBase.sixteen.integer? (String.ofList rest)
  | '0' :: _ => BitBase.eight.integer? (String.ofList s)
  | _ => ((Tag.pieces s).mapM fun piece => Number.integer? (String.ofList piece)).map ofSixtieths

/-- The integer that a text spells. -/
def integerOf (s : String) : Except Fault Int :=
  let (isNegative, unsigned) := Number.splitSign (withoutUnderscores s)
  if unsigned.isEmpty then .error .emptyNumeral
  else
    match unsignedInteger? unsigned with
    | some n => .ok (if isNegative then -n else n)
    | none => .error (.badNumeral s)

/-! ## 2. Real numbers -/

/-- The weight of a place to base sixty as a double, unless it is beyond all of them. -/
def weight? (place : Nat) : Option Double :=
  let x := Double.nearest false (Nat.pow 60 place) 1
  if x.isInfinite then none else some x

/-- The sum of numbers to base sixty, the least significant first, behind the sum of
those at lower places. Every product and every sum is rounded. -/
def realSixtieths (place : Nat) (sum : Double) : List Double → Option Double
  | [] => some sum
  | x :: rest => do
    let weight ← weight? place
    realSixtieths (place + 1) (sum.add (x.mul weight)) rest

/-- The words for what is not a number, in lower case. -/
def nanWord : List Char := ".nan".toList

/-- A text marked as a real number in lower case, without its underscores and one sign. -/
def bareReal (s : String) : List Char :=
  (Number.splitSign (withoutUnderscores s)).2.map Number.lowerAscii

/-- The real number that an unsigned text without underscores spells. -/
def unsignedReal (s : String) (unsigned : List Char) : Except Fault Double :=
  if unsigned = ".inf".toList then .ok (Double.infinity false)
  else if unsigned = nanWord then .ok Double.nan
  else
    match (Tag.pieces unsigned).mapM fun place => Double.ofNumeral? (String.ofList place) with
    | none => .error (.badNumeral s)
    | some [x] => .ok x
    | some places =>
      match realSixtieths 0 (Double.nearest false 0 1) places.reverse with
      | some x => .ok x
      | none => .error (.tooManyPlaces s)

/-- The real number that a text spells. -/
def realOf (s : String) : Except Fault Double :=
  if (withoutUnderscores s).isEmpty then .error .emptyNumeral
  else (unsignedReal s (bareReal s)).map fun x =>
    if (Number.splitSign (withoutUnderscores s)).1 then x.negated else x

/-- Whether a text is the word for what is not a number, and not just the numeral of it. -/
def isNanWord (s : String) : Bool := bareReal s == nanWord

end ApiSurface.Yaml
