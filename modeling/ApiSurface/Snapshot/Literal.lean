/-
ApiSurface.Snapshot.Literal — constants as source text spells them.

Texts stand between quotes: single ones for a character field, double ones
otherwise. Inside, the quote and the backslash follow a backslash, five control
characters have letters, and every other code point that is not printable is
given by its UTF-16 units, each behind `\u` in four digits. So a literal holds
no line break, no surrogate and no bare quote.

Real numbers from 10⁻³ up to 10⁷ have a point and a digit on both sides of it.
Others have one digit before the point, one at least behind it, and an exponent.
Single precision shows the fewest digits, up to nine, that give the number back.
-/
import ApiSurface.ClassFile.Fault
import ApiSurface.Number.Real

namespace ApiSurface.Literal

open Number (Double Decimal Format Layout)

/-! ## 1. Texts -/

/-- The letters of control characters. -/
def controlLetter? (n : Nat) : Option Char :=
  match n with
  | 0x0A => some 'n'
  | 0x0D => some 'r'
  | 0x09 => some 't'
  | 0x08 => some 'b'
  | 0x0C => some 'f'
  | _ => none

/-- A UTF-16 unit by its number. -/
def unitEscape (unit : Nat) : List Char :=
  '\\' :: 'u' :: Text.Hex.padded 4 unit

/-- One code point inside quotes. -/
def escapedPoint (quote : Char) (p : CodePoint) : List Char :=
  if p.val = quote.toNat || p.val = '\\'.toNat then ['\\', Char.ofNat p.val]
  else
    match controlLetter? p.val with
    | some letter => ['\\', letter]
    | none =>
      if Text.isPrintable p.val && !p.isSurrogate then [Char.ofNat p.val]
      else p.units.flatMap unitEscape

/-- A text inside quotes. -/
def escaped (quote : Char) (t : Text) : List Char :=
  t.flatMap (escapedPoint quote)

/-- The quote of a field's texts: single for characters. -/
def quoteOf (descriptor : String) : Char :=
  if descriptor = "C" then '\'' else '"'

/-- A text in quotes. -/
def text (quote : Char) (t : Text) : String :=
  String.ofList (quote :: escaped quote t ++ [quote])

/-! ## 2. Real numbers -/

/-- Powers of ten are written behind a mark; a mantissa has a point always. -/
def scientificLayout : Layout where
  leastPlain := 0
  firstScientific := 0
  mark := 'E'
  pointInMantissa := true
  longExponent := false

/-- The least magnitude written without an exponent. -/
def leastPlain : Nat := Format.double.nearest 1 1000

/-- The first magnitude above those written without an exponent. -/
def firstScientific : Nat := Format.double.nearest 10000000 1

/-- A decimal laid out for the double whose magnitude has the given pattern. -/
def writeDecimal (pattern : Nat) (d : Decimal) : List Char :=
  if leastPlain ≤ pattern && pattern < firstScientific then Layout.plain d.significant d.power
  else scientificLayout.scientific d.significant d.power

/-- Whether a decimal gives a double back when it is read and then narrowed to
single precision. A decimal that is finite as a double and infinite in single
precision is a fault. -/
def narrowsTo (x : Double) (d : Decimal) : Except IllTyped Bool :=
  let read := Double.ofDecimal false d.coeff d.exponent
  match read.toSingle? with
  | some bits => .ok (Double.ofSingle bits == x)
  | none => .error (.singleTooLarge x)

/-- The first of some decimals that gives a double back in single precision. -/
def firstNarrowing (x : Double) : List Decimal → Except IllTyped (Option Decimal)
  | [] => .ok none
  | d :: rest => do
    if ← narrowsTo x d then return some d else firstNarrowing x rest

/-- The digits shown for a positive double: the fewest of one to nine that give it
back in single precision if that is asked for, else the shortest for a double. -/
def decimalOf (isSingle : Bool) (pattern num den : Nat) : Except IllTyped Decimal :=
  if isSingle then do
    let candidates := (List.range' 1 9).map (Decimal.rounded num den)
    return (← firstNarrowing (Double.ofPattern pattern) candidates).getD
      (Decimal.shortest pattern num den)
  else .ok (Decimal.shortest pattern num den)

/-- A real number as source text spells it. -/
def real (isSingle : Bool) (x : Double) : Except IllTyped String :=
  match x.datum with
  | .nan => .ok "NaN"
  | .infinite negative => .ok (if negative then "-Infinity" else "Infinity")
  | .finite negative coeff exponent =>
    let sign := if negative then ['-'] else []
    if coeff = 0 then .ok (String.ofList (sign ++ ['0', '.', '0']))
    else do
      let (num, den) := Number.ratio coeff exponent
      let pattern := x.bits.toNat % Format.double.signBit
      let d ← decimalOf isSingle pattern num den
      return String.ofList (sign ++ writeDecimal pattern d)

/-! ## 3. Constants -/

/-- A constant of a field with the given descriptor as source text spells it. A
value that no field constant can be is shown as in diagnostics. -/
def constant (descriptor : String) : Value → Except IllTyped String
  | .boolean b => .ok (if b then "true" else "false")
  | .text t => .ok (text (quoteOf descriptor) t)
  | .real x => real (descriptor = "F") x
  | v => .ok v.shown

end ApiSurface.Literal
