/-
ApiSurface.Text.Blank — blank characters, and text without them at its ends.

A character is blank when Unicode gives it the white-space property or it is
one of the four information separators 0x1C to 0x1F.
-/

namespace ApiSurface.Text

/-- Blank characters: Unicode white space and the information separators. -/
def isBlank (c : Char) : Bool :=
  let n := c.toNat
  (9 ≤ n && n ≤ 13) || (0x1C ≤ n && n ≤ 0x20) || n == 0x85 || n == 0xA0 || n == 0x1680
    || (0x2000 ≤ n && n ≤ 0x200A) || n == 0x2028 || n == 0x2029 || n == 0x202F || n == 0x205F
    || n == 0x3000

/-- A list without the elements at either end that satisfy `p`. -/
def trimBoth {α : Type} (p : α → Bool) (l : List α) : List α :=
  ((l.dropWhile p).reverse.dropWhile p).reverse

/-- A string without the blanks at its ends. -/
def strip (s : String) : String :=
  String.ofList (trimBoth isBlank s.toList)

end ApiSurface.Text
