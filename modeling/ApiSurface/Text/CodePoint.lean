/-
ApiSurface.Text.CodePoint — text as a list of code points.

A `String` cannot hold half of a surrogate pair. A character constant can:
it is made from one number, and that number may lie in the surrogate range.
`Text` holds such values. Names never need it: the decoder of names yields
scalar values only, so names stay `String`.

The two views of a text are `toString?`, which exists when no code point is a
surrogate, and `units`, its UTF-16 code units, which always exist.
-/

namespace ApiSurface

/-- A code point of the Unicode code space, surrogates included. -/
structure CodePoint where
  /-- The number of the code point. -/
  val : Nat
  isLt : val < 0x110000
deriving DecidableEq

namespace CodePoint

/-- The code point with a given number, if the code space has one. -/
def ofNat? (n : Nat) : Option CodePoint :=
  if h : n < 0x110000 then some ⟨n, h⟩ else none

/-- Every character is a code point. -/
def ofChar (c : Char) : CodePoint :=
  ⟨c.toNat, by
    have h := c.valid
    simp only [UInt32.isValidChar, Nat.isValidChar] at h
    show c.val.toNat < 0x110000
    omega⟩

/-- Surrogates stand for halves of pairs and are no characters. -/
def isSurrogate (p : CodePoint) : Bool :=
  decide (0xD800 ≤ p.val) && decide (p.val ≤ 0xDFFF)

/-- The character of a code point that is not a surrogate. -/
def toChar? (p : CodePoint) : Option Char :=
  if p.val.isValidChar then some (Char.ofNat p.val) else none

/-- The UTF-16 code units of a code point: one, or a pair from 0x10000 on. -/
def units (p : CodePoint) : List Nat :=
  if p.val < 0x10000 then [p.val]
  else [0xD800 + (p.val - 0x10000) / 0x400, 0xDC00 + (p.val - 0x10000) % 0x400]

end CodePoint

/-- A text of code points. -/
abbrev Text := List CodePoint

namespace Text

/-- The code points of a string. -/
def ofString (s : String) : Text :=
  s.toList.map CodePoint.ofChar

/-- The string with these code points, if none of them is a surrogate. -/
def toString? (t : Text) : Option String :=
  (t.mapM CodePoint.toChar?).map String.ofList

/-- The UTF-16 code units of a text. -/
def units (t : Text) : List Nat :=
  t.flatMap CodePoint.units

/-- The UTF-8 form of a text; a text with a surrogate has none. -/
def utf8? (t : Text) : Option ByteArray :=
  t.toString?.map String.toUTF8

/-- Texts are ordered by the numbers of their code points, and a proper
beginning of a text comes before it. -/
def le : Text → Text → Bool
  | [], _ => true
  | _ :: _, [] => false
  | p :: s, q :: t => if p.val = q.val then le s t else decide (p.val < q.val)

end Text

end ApiSurface
