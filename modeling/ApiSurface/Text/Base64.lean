/-
ApiSurface.Text.Base64 — bytes written in an alphabet of sixty-four digits.

Four digits hold three bytes. Characters outside of the alphabet, such as line
feeds, are passed over. The last group may be short by one or two digits, and
then equals signs fill it up: the sign that does so ends the text, whatever
follows. Equals signs at other places mean nothing, and a digit behind some of
them starts their count anew.
-/

namespace ApiSurface.Text.Base64

/-- The value of a digit. -/
def value? (c : Char) : Option Nat :=
  if 'A' ≤ c ∧ c ≤ 'Z' then some (c.toNat - 'A'.toNat)
  else if 'a' ≤ c ∧ c ≤ 'z' then some (c.toNat - 'a'.toNat + 26)
  else if '0' ≤ c ∧ c ≤ '9' then some (c.toNat - '0'.toNat + 52)
  else if c = '+' then some 62
  else if c = '/' then some 63
  else none

/-- The whole bytes that the digits of a group hold. -/
def bytesOf : List Nat → List UInt8
  | [a, b] => [UInt8.ofNat (a * 4 + b / 16)]
  | [a, b, c] => [UInt8.ofNat (a * 4 + b / 16), UInt8.ofNat (b % 16 * 16 + c / 4)]
  | [a, b, c, d] =>
    [UInt8.ofNat (a * 4 + b / 16), UInt8.ofNat (b % 16 * 16 + c / 4), UInt8.ofNat (c % 4 * 64 + d)]
  | _ => []

/-- The bytes in the rest of a text, behind some digits of a group and some equals signs
in a row. A group that nothing fills up is none. -/
def decodeFrom (held : List Nat) (signs : Nat) : List Char → Option (List UInt8)
  | [] => if held.isEmpty then some [] else none
  | c :: rest =>
    if c = '=' then
      if held.length < 2 then decodeFrom held signs rest
      else if 4 ≤ held.length + signs + 1 then some (bytesOf held)
      else decodeFrom held (signs + 1) rest
    else
      match value? c with
      | none => decodeFrom held signs rest
      | some v =>
        let group := held ++ [v]
        if group.length = 4 then (decodeFrom [] 0 rest).map (bytesOf group ++ ·)
        else decodeFrom group 0 rest

/-- The bytes that a text holds. -/
def decode (s : List Char) : Option (List UInt8) := decodeFrom [] 0 s

end ApiSurface.Text.Base64
