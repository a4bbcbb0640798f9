/-
ApiSurface.Text.Quoted — text in quotes, for diagnostics.

A diagnostic shows a text between single quotes, or between double quotes when
it holds a single quote and no double one. Inside, a backslash and the chosen
quote are written after a backslash, line feed, carriage return and tab by
their letters, and every other code point that is not printable by its number:
two, four or eight hexadecimal digits, the fewest that fit. Bytes are shown in
the same way behind a letter, and only those of printable ASCII stand for
themselves.
-/
import ApiSurface.Text.Printable
import ApiSurface.Text.Hex

namespace ApiSurface.Text

/-- The quote around a text: double only when that spares an escape. -/
def quoteFor (t : Text) : Char :=
  if t.any (fun p => p.val == '\''.toNat) && !t.any (fun p => p.val == '"'.toNat) then '"' else '\''

/-- A code point by its number, with the fewest of two, four and eight digits that hold it. -/
def escapeNumber (n : Nat) : List Char :=
  if n ≤ 0xFF then '\\' :: 'x' :: Hex.padded 2 n
  else if n ≤ 0xFFFF then '\\' :: 'u' :: Hex.padded 4 n
  else '\\' :: 'U' :: Hex.padded 8 n

/-- One code point inside quotes. -/
def quotedPoint (quote : Char) (p : CodePoint) : List Char :=
  if p.val = quote.toNat then ['\\', quote]
  else if p.val = '\\'.toNat then ['\\', '\\']
  else if p.val = '\n'.toNat then ['\\', 'n']
  else if p.val = '\r'.toNat then ['\\', 'r']
  else if p.val = '\t'.toNat then ['\\', 't']
  else if isPrintable p.val then [Char.ofNat p.val]
  else escapeNumber p.val

/-- A text in quotes. -/
def quoted (t : Text) : String :=
  let quote := quoteFor t
  String.ofList (quote :: t.flatMap (quotedPoint quote) ++ [quote])

/-- A string in quotes. -/
def quotedString (s : String) : String :=
  quoted (ofString s)

/-- Bytes in quotes. -/
def quotedBytes (bytes : List UInt8) : String :=
  let shown := bytes.map fun b => Char.ofNat b.toNat
  let quote := quoteFor (ofString (String.ofList shown))
  let inner := shown.flatMap fun c =>
    if c.toNat < 0x7F then quotedPoint quote (CodePoint.ofChar c) else escapeNumber c.toNat
  String.ofList ('b' :: quote :: inner ++ [quote])

end ApiSurface.Text
