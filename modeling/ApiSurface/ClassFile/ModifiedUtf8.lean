/-
ApiSurface.ClassFile.ModifiedUtf8 — the text encoding of class files.

A class file writes text as 16-bit code units, each on its own in one, two or
three bytes; the unit zero takes the two bytes C0 80. A character above 0xFFFF
is thus two encoded surrogates. Ordinary UTF-8 in four bytes is accepted too.

`decode?` reads code points and then mends surrogates: a pair becomes the
character it stands for, and a surrogate without its partner becomes the
replacement character. So the result is a string, whatever the bytes were.
-/
import ApiSurface.Text.CodePoint

namespace ApiSurface.ModifiedUtf8

/-- Continuation bytes. -/
def isContinuation (b : UInt8) : Bool :=
  decide (0x80 ≤ b) && decide (b ≤ 0xBF)

/-- The low six bits of a continuation byte. -/
def payload (b : UInt8) : Nat :=
  b.toNat % 0x40

/-- The bytes that may follow the first byte of a three-byte form. -/
def secondOfThree (a b : UInt8) : Bool :=
  isContinuation b && (a != 0xE0 || decide (0xA0 ≤ b))

/-- The bytes that may follow the first byte of a four-byte form. -/
def secondOfFour (a b : UInt8) : Bool :=
  isContinuation b && (a != 0xF0 || decide (0x90 ≤ b)) && (a != 0xF4 || decide (b ≤ 0x8F))

/-- The code points that the bytes spell, surrogates included. -/
def points? : List UInt8 → Option (List Nat)
  | [] => some []
  | a :: rest =>
    if a < 0x80 then (points? rest).map (a.toNat :: ·)
    else match rest with
      | [] => none
      | b :: rest =>
        if a == 0xC0 && b == 0x80 then (points? rest).map (0 :: ·)
        else if 0xC2 ≤ a && a ≤ 0xDF && isContinuation b then
          (points? rest).map ((a.toNat % 0x20 * 0x40 + payload b) :: ·)
        else match rest with
          | [] => none
          | c :: rest =>
            if 0xE0 ≤ a && a ≤ 0xEF && secondOfThree a b && isContinuation c then
              (points? rest).map
                ((a.toNat % 0x10 * 0x1000 + payload b * 0x40 + payload c) :: ·)
            else match rest with
              | [] => none
              | d :: rest =>
                if 0xF0 ≤ a && a ≤ 0xF4 && secondOfFour a b && isContinuation c
                    && isContinuation d then
                  (points? rest).map
                    ((a.toNat % 0x08 * 0x40000 + payload b * 0x1000 + payload c * 0x40
                      + payload d) :: ·)
                else none

/-- High surrogates begin a pair. -/
def isHigh (n : Nat) : Bool := decide (0xD800 ≤ n) && decide (n ≤ 0xDBFF)

/-- Low surrogates end a pair. -/
def isLow (n : Nat) : Bool := decide (0xDC00 ≤ n) && decide (n ≤ 0xDFFF)

/-- The character that stands for what could not be read. -/
def replacement : Char := Char.ofNat 0xFFFD

/-- A code point on its own: a surrogate has lost its partner. -/
def mendLone (p : Nat) : Char :=
  if isHigh p || isLow p then replacement else Char.ofNat p

/-- The character of a surrogate pair. -/
def joinPair (p q : Nat) : Char :=
  Char.ofNat (0x10000 + (p - 0xD800) * 0x400 + (q - 0xDC00))

/-- Surrogate pairs joined, and lone surrogates replaced. -/
def mend : List Nat → List Char
  | [] => []
  | [p] => [mendLone p]
  | p :: q :: rest =>
    if isHigh p && isLow q then joinPair p q :: mend rest
    else mendLone p :: mend (q :: rest)

/-- The text that the bytes spell, if they are well formed. -/
def decode? (bytes : List UInt8) : Option String :=
  (points? bytes).map fun ps => String.ofList (mend ps)

end ApiSurface.ModifiedUtf8
