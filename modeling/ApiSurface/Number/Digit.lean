/-
ApiSurface.Number.Digit — decimal digits of every script.

Unicode 14 has 66 runs of ten consecutive code points that stand for the digits
zero to nine. A numeral in a text may use any of them. Blanks around a numeral
are skipped too; the information separators are no blanks here.
-/
import ApiSurface.Text.Blank

namespace ApiSurface.Number

/-- The code points of the digits zero. -/
def zeroDigits : List Nat := [
  48, 1632, 1776, 1984, 2406, 2534, 2662, 2790, 2918, 3046, 3174, 3302, 3430, 3558, 3664, 3792,
  3872, 4160, 4240, 6112, 6160, 6470, 6608, 6784, 6800, 6992, 7088, 7232, 7248, 42528, 43216,
  43264, 43472, 43504, 43600, 44016, 65296, 66720, 68912, 69734, 69872, 69942, 70096, 70384,
  70736, 70864, 71248, 71360, 71472, 71904, 72016, 72784, 73040, 73120, 92768, 92864, 93008,
  120782, 120792, 120802, 120812, 120822, 123200, 123632, 125264, 130032]

/-- The value of a decimal digit of any script. -/
def digitValue? (c : Char) : Option Nat :=
  (zeroDigits.find? fun z => decide (z ≤ c.toNat) && decide (c.toNat < z + 10)).map (c.toNat - ·)

/-- The digit zero to nine as a character. -/
def digitChar (n : Nat) : Char :=
  Char.ofNat ('0'.toNat + n)

/-- Blanks that may stand around a numeral. -/
def isPadding (c : Char) : Bool :=
  Text.isBlank c && !(decide (0x1C ≤ c.toNat) && decide (c.toNat ≤ 0x1F))

/-- The characters of a numeral: padding at the ends removed, digits of every
script replaced by the plain ones. -/
def plainNumeral (s : String) : List Char :=
  (Text.trimBoth isPadding s.toList).map fun c =>
    match digitValue? c with
    | some n => digitChar n
    | none => c

/-- The number that plain decimal digits spell. -/
def ofDigits (digits : List Char) : Nat :=
  digits.foldl (fun n c => 10 * n + (c.toNat - '0'.toNat)) 0

/-- Plain decimal digits. -/
def isDigit (c : Char) : Bool :=
  decide ('0' ≤ c) && decide (c ≤ '9')

/-- The decimal digits of a number; zero has one. -/
def digits (n : Nat) : List Char :=
  Nat.toDigits 10 n

/-- The sign of a numeral, and what follows it. -/
def splitSign : List Char → Bool × List Char
  | '-' :: rest => (true, rest)
  | '+' :: rest => (false, rest)
  | rest => (false, rest)

/-- A text without its underscores; an underscore must stand between two digits. -/
def dropUnderscores? : List Char → Option (List Char)
  | [] => some []
  | '_' :: _ => none
  | c :: '_' :: d :: rest =>
    if isDigit c && isDigit d then (dropUnderscores? (d :: rest)).map (c :: ·) else none
  | _ :: '_' :: [] => none
  | c :: rest => (dropUnderscores? rest).map (c :: ·)

end ApiSurface.Number
