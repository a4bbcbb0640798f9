/-
ApiSurface.Archive.BlockSort — expanding block-sorted data.

The data is a row of blocks behind a mark that says how large they may be, and a
last record. Every block is made in four steps, and expanding undoes them: bytes
in prefix codes, each group of fifty in one of a few codes; ranks in a list that
moves what was used to its front, with counts for runs of the first rank; the last
column of the sorted rotations of a text; and runs of four equal bytes with a count
of how many more there are. Each block carries a checksum, and so do all together.

The bits of a byte are taken highest first, so the bytes are turned around before.
Bytes that belong to a block are kept once the block is complete.
-/
import ApiSurface.Archive.Expand

namespace ApiSurface.Archive

/-- A byte with its bits in reversed order. -/
def turned (b : UInt8) : UInt8 :=
  UInt8.ofNat ((List.range 8).foldl (fun n i => 2 * n + b.toNat / Nat.pow 2 i % 2) 0)

/-! ## 1. Checksums -/

/-- The register of a block checksum after one more bit. -/
def blockCrcBit (r : UInt32) : UInt32 :=
  if r &&& 0x80000000 == 0 then r <<< 1 else (r <<< 1) ^^^ 0x04C11DB7

/-- The register of a block checksum after one more byte. -/
def blockCrcByte (r : UInt32) (b : UInt8) : UInt32 :=
  (List.range 8).foldl (fun r _ => blockCrcBit r) (r ^^^ (b.toUInt32 <<< 24))

/-- The checksum of a block. -/
def blockCrc (bytes : Array UInt8) : UInt32 :=
  bytes.foldl blockCrcByte 0xFFFFFFFF ^^^ 0xFFFFFFFF

/-- The checksum of all blocks up to one, from that of the blocks before it. -/
def joinedCrc (before block : UInt32) : UInt32 := ((before <<< 1) ||| (before >>> 31)) ^^^ block

/-! ## 2. Texts -/

/-- `count` letters behind `out`, each in the column at the place that `later` tells for
the place of the letter before; `row` stands for the place before the first. -/
def lettersFrom (column : Array UInt8) (later : Array Nat) (out : Array UInt8) (row : Nat) :
    Nat → Array UInt8
  | 0 => out
  | count + 1 =>
    let next := later[row]?.getD 0
    lettersFrom column later (out.push (column[next]?.getD 0)) next count

/-- The text that is the given row among its sorted rotations, from the last column of
these. Rotations sorted by their last letters are those sorted by their first, each turned
by one, so the sorted column tells for each row the one that begins one letter later. -/
def unsorted (column : Array UInt8) (row : Nat) : Array UInt8 :=
  let sorted := column.toList.zipIdx.mergeSort fun x y => decide (x.1 ≤ y.1)
  lettersFrom column (sorted.map (·.2)).toArray #[] row column.size

/-- Puts back the runs: behind four equal bytes stands how many more there are. `count`
is the count of bytes equal to `last` before. A text cannot end behind four. -/
def withRuns (last : UInt8) (count : Nat) (out : Array UInt8) :
    List UInt8 → Option (Array UInt8)
  | [] => if count = 4 then none else some out
  | b :: rest =>
    if count = 4 then withRuns b 0 (out ++ Array.replicate b.toNat last) rest
    else withRuns b (if b = last then count + 1 else 1) (out.push b) rest

namespace Expand

/-! ## 3. Codes -/

/-- The number that the next `n` bits spell behind `high`, the highest first. -/
def highNumber (high : Nat) : Nat → Expand Nat
  | 0 => return high
  | n + 1 => do highNumber (2 * high + (← bit)) n

/-- Takes bytes that must be the given ones. -/
def expect : List Nat → Expand Unit
  | [] => return ()
  | b :: rest => do
    if (← highNumber 0 8) != b then throw .damaged
    expect rest

/-- The count of ones before the next zero, which must be below `limit`. -/
def ones (limit : Nat) : Nat → Expand Nat
  | 0 => throw .damaged
  | left + 1 => do
    if (← bit) = 0 then return limit - (left + 1) else ones limit left

/-- The members of a list at some ranks; each moves to the front. -/
def atRanks (list : List Nat) : List Nat → List Nat
  | [] => []
  | rank :: ranks =>
    let found := list[rank]?.getD 0
    found :: atRanks (found :: list.eraseIdx rank) ranks

/-- A length of a code word, as steps up and down from `length`; there are at most `limit`
steps. -/
def steppedLength (length : Nat) : Nat → Expand Nat
  | 0 => throw .cut
  | limit + 1 => do
    if length < 1 || 20 < length then throw .damaged
    if (← bit) = 0 then return length
    if (← bit) = 0 then steppedLength (length + 1) limit else steppedLength (length - 1) limit

/-- `count` lengths of code words, each as steps from the one before. -/
def steppedLengths (limit length : Nat) : Nat → Expand (List Nat)
  | 0 => return []
  | count + 1 => do
    let length ← steppedLength length limit
    return length :: (← steppedLengths limit length count)

/-- A code of `count` symbols. Its words may be too many or too few. Where bits begin no
word, one more than a word can have is taken. -/
def steppedCode (limit count : Nat) : Expand PrefixCode := do
  let lengths ← steppedLengths limit (← highNumber 0 5) count
  return ⟨(List.range' 1 21).map (PrefixCode.ofLength lengths)⟩

/-! ## 4. Blocks -/

/-- The column of a block as far as it is known. -/
structure Column where
  /-- The bytes of the block, the one used last in front. -/
  order : List UInt8
  bytes : Array UInt8
  /-- The length of the run read so far. -/
  run : Nat
  /-- What the next digit of the length of a run counts. -/
  weight : Nat

/-- The column with one more digit of the length of a run; a run cannot have too many. -/
def Column.withDigit (c : Column) (digit : Nat) : Expand Column :=
  if 0x200000 ≤ c.weight then throw .damaged
  else return { c with run := c.run + digit * c.weight, weight := 2 * c.weight }

/-- The column with the run that was read, when it has room for it. -/
def Column.withRun (room : Nat) (c : Column) : Expand Column :=
  if room < c.bytes.size + c.run then throw .damaged
  else
    let bytes := c.bytes ++ Array.replicate c.run (c.order.head?.getD 0)
    return { c with bytes, run := 0, weight := 1 }

/-- The column with the byte of a rank, which moves to the front. -/
def Column.withRank (room rank : Nat) (c : Column) : Expand Column :=
  if room ≤ c.bytes.size then throw .damaged
  else
    let b := c.order[rank]?.getD 0
    return { c with order := b :: c.order.eraseIdx rank, bytes := c.bytes.push b }

/-- The column of a block from its symbols, of which there are at most `limit`. The
codes for the groups of symbols from now on are given, and how many symbols the first of
them has left. The symbols zero and one are the digits one and two of the length of a run,
and the symbol behind the last rank ends the block. -/
def column (room : Nat) (c : Column) (left : Nat) (codes : List PrefixCode) :
    Nat → Expand (Array UInt8)
  | 0 => throw .cut
  | limit + 1 => do
    let (left, codes) := if left = 0 then (50, codes.drop 1) else (left, codes)
    match codes with
    | [] => throw .damaged
    | code :: _ =>
      let symbol ← code.decode
      if symbol < 2 then column room (← c.withDigit (symbol + 1)) (left - 1) codes limit
      else
        let c ← c.withRun room
        if symbol = c.order.length + 1 then return c.bytes
        else column room (← c.withRank room (symbol - 1)) (left - 1) codes limit

/-- The bytes that a block uses, by sixteens. -/
def usedBytes : Expand (List UInt8) := do
  let sixteens ← (List.range 16).mapM fun i => return (i, ← bit)
  let used ← sixteens.mapM fun (i, isUsed) => do
    if isUsed = 0 then return []
    else
      let bits ← (List.range 16).mapM fun j => return (16 * i + j, ← bit)
      return (bits.filter (·.2 = 1)).map fun x => UInt8.ofNat x.1
  return used.flatten

/-- The most groups of symbols that a block has; what goes beyond is not looked at. -/
def mostGroups : Nat := 18002

/-- A block of at most `room` bytes, behind its mark; gives its checksum. Blocks
whose bytes are disturbed on purpose, as early ones could be, count as damaged. -/
def sortedBlock (limit room : Nat) : Expand UInt32 := do
  let crc := UInt32.ofNat (← highNumber 0 32)
  let isDisturbed ← bit
  let row ← highNumber 0 24
  if 10 + room < row then throw .damaged
  let used ← usedBytes
  if used.isEmpty then throw .damaged
  let codeCount ← highNumber 0 3
  if codeCount < 2 || 6 < codeCount then throw .damaged
  let groups ← highNumber 0 15
  if groups < 1 then throw .damaged
  let ranks ← (List.range groups).mapM fun _ => ones codeCount codeCount
  let codes ← (List.range codeCount).mapM fun _ => steppedCode limit (used.length + 2)
  let choices := atRanks (List.range codeCount) (ranks.take mostGroups)
  let bytes ← column room ⟨used, #[], 0, 1⟩ 50 (choices.filterMap (codes[·]?)) limit
  if bytes.size ≤ row || isDisturbed = 1 then throw .damaged
  match withRuns 0 0 #[] (unsorted bytes row).toList with
  | none => throw .damaged
  | some text =>
    if blockCrc text != crc then throw .damaged
    modify fun s => { s with out := s.out ++ text }
    return crc

/-- The blocks up to the last record, of which there are at most `limit`; `crc` is the
checksum of those before. -/
def sortedBlocks (bitLimit room : Nat) (crc : UInt32) : Nat → Expand Unit
  | 0 => throw .cut
  | limit + 1 => do
    let first ← highNumber 0 8
    if first = 0x17 then
      expect [0x72, 0x45, 0x38, 0x50, 0x90]
      if UInt32.ofNat (← highNumber 0 32) != crc then throw .damaged
    else if first = 0x31 then
      expect [0x41, 0x59, 0x26, 0x53, 0x59]
      sortedBlocks bitLimit room (joinedCrc crc (← sortedBlock bitLimit room)) limit
    else throw .damaged

/-- All blocks, behind the mark that says how many hundred thousand bytes they may have. -/
def sortedData (limit : Nat) : Expand Unit := do
  expect [0x42, 0x5A, 0x68]
  let digit ← highNumber 0 8
  if digit < 0x31 || 0x39 < digit then throw .damaged
  sortedBlocks limit (100000 * (digit - 0x30)) 0 limit

end Expand

/-- What block-sorted data expand to, and why expanding stopped early if it did. -/
def expandSorted (bytes : List UInt8) : Except Halt Unit × List UInt8 :=
  let start : Expansion := ⟨[], bytes.map turned, #[]⟩
  let (outcome, s) := ((Expand.sortedData (8 * bytes.length + 1)).run start).run
  (outcome, s.out.toList)

end ApiSurface.Archive
