/-
ApiSurface.Archive.Inflate — expanding deflated data.

Deflated data is a row of blocks. A block is stored as it is, or it is a row of
symbols in prefix codes that are fixed or described at its start; a symbol is a
byte or the order to copy from what was expanded before.

Every symbol takes one bit at least, so the count of bits bounds all loops.
-/
import ApiSurface.Archive.Expand

namespace ApiSurface.Archive

namespace Expand

/-! ## 1. Symbols -/

/-- Base and extra bits of the lengths to copy. -/
def lengthTable : List (Nat × Nat) := [
  (3, 0), (4, 0), (5, 0), (6, 0), (7, 0), (8, 0), (9, 0), (10, 0), (11, 1), (13, 1), (15, 1),
  (17, 1), (19, 2), (23, 2), (27, 2), (31, 2), (35, 3), (43, 3), (51, 3), (59, 3), (67, 4),
  (83, 4), (99, 4), (115, 4), (131, 5), (163, 5), (195, 5), (227, 5), (258, 0)]

/-- Base and extra bits of the distances to copy from. -/
def distanceTable : List (Nat × Nat) := [
  (1, 0), (2, 0), (3, 0), (4, 0), (5, 1), (7, 1), (9, 2), (13, 2), (17, 3), (25, 3), (33, 4),
  (49, 4), (65, 5), (97, 5), (129, 6), (193, 6), (257, 7), (385, 7), (513, 8), (769, 8),
  (1025, 9), (1537, 9), (2049, 10), (3073, 10), (4097, 11), (6145, 11), (8193, 12),
  (12289, 12), (16385, 13), (24577, 13)]

/-- A number from a table of bases and extra bits. -/
def tabled (table : List (Nat × Nat)) (index : Nat) : Expand Nat := do
  match table[index]? with
  | some (base, extra) => return base + (← bitNumber extra)
  | none => throw .damaged

/-- The symbol that ends a block. -/
def endOfBlock : Nat := 256

/-- The symbols of a block, of which there are at most `limit`. -/
def symbols (literals distances : PrefixCode) : Nat → Expand Unit
  | 0 => throw .cut
  | limit + 1 => do
    let symbol ← literals.decode
    if symbol < endOfBlock then
      emit (UInt8.ofNat symbol)
      symbols literals distances limit
    else if symbol = endOfBlock then return ()
    else
      let count ← tabled lengthTable (symbol - 257)
      let distance ← tabled distanceTable (← distances.decode)
      if (← get).out.size < distance then throw .damaged
      copy distance count
      symbols literals distances limit

/-! ## 2. Blocks -/

/-- The lengths of the fixed literal code. -/
def fixedLiterals : List Nat :=
  List.replicate 144 8 ++ List.replicate 112 9 ++ List.replicate 24 7 ++ List.replicate 8 8

/-- The lengths of the fixed distance code. -/
def fixedDistances : List Nat := List.replicate 32 5

/-- The symbols for code lengths, in the order in which their own lengths come. -/
def lengthOrder : List Nat := [16, 17, 18, 0, 8, 7, 9, 6, 10, 5, 11, 4, 12, 3, 13, 2, 14, 1, 15]

/-- `count` code lengths behind those read before. -/
def codeLengths (code : PrefixCode) (count : Nat) : Nat → List Nat → Expand (List Nat)
  | 0, _ => throw .cut
  | limit + 1, known =>
    if count ≤ known.length then return known
    else do
      let symbol ← code.decode
      let more ← (do
        if symbol < 16 then return [symbol]
        else if symbol = 16 then
          let count := 3 + (← bitNumber 2)
          match known.getLast? with
          | some last => return List.replicate count last
          | none => throw .damaged
        else if symbol = 17 then return List.replicate (3 + (← bitNumber 3)) 0
        else return List.replicate (11 + (← bitNumber 7)) 0 : Expand (List Nat))
      if count < known.length + more.length then throw .damaged
      codeLengths code count limit (known ++ more)

/-- The code of the code lengths. Without words it means a length of zero by every bit. -/
def lengthCode (lengths : List Nat) : Expand PrefixCode :=
  if lengths.all (· == 0) then return ⟨[[0, 0]]⟩ else codeOf false lengths

/-- The codes described at the start of a block. -/
def describedCodes : Expand (PrefixCode × PrefixCode) := do
  let literals := (← bitNumber 5) + 257
  let distances := (← bitNumber 5) + 1
  let described := (← bitNumber 4) + 4
  if 286 < literals || 30 < distances then throw .damaged
  let given ← (lengthOrder.take described).mapM fun symbol =>
    return (symbol, ← bitNumber 3)
  let lengths := (List.range 19).map fun symbol => (given.lookup symbol).getD 0
  let code ← lengthCode lengths
  let lengths ← codeLengths code (literals + distances) (literals + distances + 1) []
  if lengths[endOfBlock]?.getD 0 = 0 then throw .damaged
  return (← codeOf true (lengths.take literals), ← codeOf true (lengths.drop literals))

/-- A block that is stored as it is; it starts at the next whole byte. -/
def storedBlock : Expand Unit := do
  modify fun s => { s with bits := [] }
  let size ← bitNumber 16
  let check ← bitNumber 16
  if size + check != 0xFFFF then throw .damaged
  let s ← get
  set { s with bytes := s.bytes.drop size, out := s.out ++ (s.bytes.take size).toArray }
  if s.bytes.length < size then throw .cut

/-- The blocks up to the last, of which there are at most `limit`; none has more
symbols than there are bits. -/
def blocks (size : Nat) : Nat → Expand Unit
  | 0 => throw .cut
  | limit + 1 => do
    let isLast ← bit
    match ← bitNumber 2 with
    | 0 => storedBlock
    | 1 => symbols (← codeOf true fixedLiterals) (← codeOf true fixedDistances) size
    | 2 =>
      let (literals, distances) ← describedCodes
      symbols literals distances size
    | _ => throw .damaged
    if isLast = 1 then return () else blocks size limit

end Expand

/-- What deflated data expand to, and why expanding stopped early if it did. -/
def inflate (bytes : List UInt8) : Except Halt Unit × List UInt8 :=
  let size := 8 * bytes.length + 1
  let (outcome, s) := ((Expand.blocks size size).run ⟨[], bytes, #[]⟩).run
  (outcome, s.out.toList)

end ApiSurface.Archive
