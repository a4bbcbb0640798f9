/-
ApiSurface.Archive.Expand — taking bits and prefix codes from compressed data.

Compressed data is read bit by bit, the lowest of each byte first, and what it
expands to is kept also when the data end early or turn out damaged. A prefix code
is given by the lengths of its words alone: the words of one length are consecutive
numbers in the order of their symbols, and they go on from one length to the next.
-/

namespace ApiSurface.Archive

/-- Why expanding stopped before the last block ended. -/
inductive Halt where
  /-- The data ended. -/
  | cut
  /-- The data follow no valid code. -/
  | damaged
deriving DecidableEq

/-- Bits still to be taken, and the bytes expanded so far. -/
structure Expansion where
  /-- Bits of the byte begun. -/
  bits : List Bool
  /-- Bytes not yet begun. -/
  bytes : List UInt8
  out : Array UInt8

/-- A step of expanding. What was expanded stays when a step halts. -/
abbrev Expand := ExceptT Halt (StateM Expansion)

namespace Expand

/-! ## 1. Bits -/

/-- The bits of a byte, the lowest first. -/
def bitsOf (b : UInt8) : List Bool :=
  (List.range 8).map fun i => b.toNat / Nat.pow 2 i % 2 == 1

/-- The next bit. -/
def bit : Expand Nat := do
  let s ← get
  match s.bits with
  | b :: rest =>
    set { s with bits := rest }
    return b.toNat
  | [] =>
    match s.bytes with
    | [] => throw .cut
    | byte :: rest =>
      set { s with bits := (bitsOf byte).drop 1, bytes := rest }
      return byte.toNat % 2

/-- The number that the next `n` bits spell, the lowest first. -/
def bitNumber : Nat → Expand Nat
  | 0 => return 0
  | n + 1 => do
    let low ← bit
    let high ← bitNumber n
    return low + 2 * high

/-- Puts a byte behind what was expanded. -/
def emit (b : UInt8) : Expand Unit :=
  modify fun s => { s with out := s.out.push b }

/-- Copies `count` bytes, each from `distance` bytes back. -/
def copy (distance : Nat) : Nat → Expand Unit
  | 0 => return ()
  | count + 1 => do
    let s ← get
    match s.out[s.out.size - distance]? with
    | some b => emit b
    | none => throw .damaged
    copy distance count

/-! ## 2. Prefix codes -/

/-- A prefix code: for each length from one to the greatest, the symbols that have a
code word of that length, in order. Code words are numbered through the lengths. A code
without words has the length one, so that what it cannot decode is one bit. -/
structure PrefixCode where
  symbols : List (List Nat)

namespace PrefixCode

/-- The symbols with a code word of a given length. -/
def ofLength (lengths : List Nat) (n : Nat) : List Nat :=
  (lengths.zipIdx.filter fun entry => entry.1 == n).map (·.2)

/-- What is left of the code space when code words of the given counts are taken
from it; `none` when they are too many. -/
def spare : List Nat → Nat → Option Nat
  | [], left => some left
  | count :: rest, left => if 2 * left < count then none else spare rest (2 * left - count)

/-- The code whose words have the given lengths. A code that leaves a part of the
code space unused is valid only when it has no word, or when it is allowed to be
sparse and has one word of one bit. -/
def ofLengths? (mayBeSparse : Bool) (lengths : List Nat) : Option PrefixCode :=
  let symbols := (List.range' 1 (lengths.foldl max 1)).map (ofLength lengths)
  match spare (symbols.map List.length) 1 with
  | none => none
  | some left =>
    if left = 0 || lengths.all (· == 0) || (mayBeSparse && lengths.all (· ≤ 1)) then
      some ⟨symbols⟩
    else none

/-- Takes one code word: `code` is what was taken of it, less the first code word
of that length. -/
def decodeFrom (code : Nat) : List (List Nat) → Expand Nat
  | [] => throw .damaged
  | symbols :: longer => do
    let code := 2 * code + (← bit)
    match symbols[code]? with
    | some symbol => return symbol
    | none => decodeFrom (code - symbols.length) longer

/-- The next symbol. -/
def decode (c : PrefixCode) : Expand Nat := decodeFrom 0 c.symbols

end PrefixCode

/-- The code with the given lengths, which must be valid. -/
def codeOf (mayBeSparse : Bool) (lengths : List Nat) : Expand PrefixCode :=
  match PrefixCode.ofLengths? mayBeSparse lengths with
  | some c => return c
  | none => throw .damaged

end Expand

end ApiSurface.Archive
