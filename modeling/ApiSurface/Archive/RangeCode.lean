/-
ApiSurface.Archive.RangeCode — expanding range-coded data.

The data is one number between zero and one. A decision splits the range in which
it lies in two by the probability of a zero, and the part in which the number lies
is the decision and the range for the next one. Probabilities follow what was
decided. Bytes of the number are taken when the range has become narrow.

Decisions spell a row of literals, copies from a new distance, and copies from one
of the last four distances; a distance of all ones ends the row. How probable what
is depends on the kinds of the last few, on the place, and on the bytes nearby.
-/
import ApiSurface.Archive.Expand

namespace ApiSurface.Archive

/-! ## 1. Decisions -/

/-- How much the bytes nearby and the place count for the probabilities. -/
structure RangeShape where
  /-- Upper bits of the byte before that count for a literal. -/
  literalContext : Nat
  /-- Lower bits of the place that count for a literal. -/
  literalPlace : Nat
  /-- Lower bits of the place that count for the rest. -/
  placeBits : Nat
  /-- The farthest distance that may be copied from. -/
  reach : Nat

/-- The state of expanding. -/
structure Decoder where
  range : Nat
  /-- How far the number lies above the lower end of the range. -/
  code : Nat
  bytes : List UInt8
  /-- Probabilities of a zero, in 2048ths. -/
  odds : Array Nat
  out : Array UInt8
  /-- The kinds of the last few, as one of twelve numbers. -/
  kind : Nat
  /-- The last four distances, less one, the latest first. -/
  distances : List Nat

/-- A step of expanding. What was expanded stays when a step halts. -/
abbrev Decode := ExceptT Halt (StateM Decoder)

namespace Decode

/-- The count of numbers of one word. -/
def wordCount : Nat := 0x100000000

/-- Takes a byte of the number if the range has become narrow. -/
def widen : Decode Unit := do
  let s ← get
  if s.range < 0x1000000 then
    match s.bytes with
    | [] => throw .cut
    | b :: rest =>
      let code := (256 * s.code + b.toNat) % wordCount
      set { s with range := 256 * s.range, code, bytes := rest }

/-- A decision with the probability at a place. -/
def decision (place : Nat) : Decode Nat := do
  widen
  modifyGet fun s =>
    let odds := s.odds[place]?.getD 1024
    let part := s.range / 2048 * odds
    if s.code < part then
      let odds := s.odds.setIfInBounds place (odds + (2048 - odds) / 32)
      (0, { s with range := part, odds })
    else
      let odds := s.odds.setIfInBounds place (odds - odds / 32)
      (1, { s with range := s.range - part, code := s.code - part, odds })

/-- `count` even decisions behind `high`, the highest first. -/
def evenNumber (high : Nat) : Nat → Decode Nat
  | 0 => return high
  | count + 1 => do
    widen
    let s ← get
    let half := s.range / 2
    let above := (s.code + wordCount - half) % wordCount
    let isBelow := decide (wordCount / 2 ≤ above)
    set { s with range := half, code := if isBelow then (above + half) % wordCount else above }
    evenNumber (2 * high + if isBelow then 0 else 1) count

/-- A number of `count` decisions, the highest first, each with a probability by those
before. The probabilities begin at `base`, and `high` is a one with the bits so far. -/
def numberFrom (base high : Nat) : Nat → Decode Nat
  | 0 => return high
  | count + 1 => do numberFrom base (2 * high + (← decision (base + high))) count

/-- A number of `count` bits, the highest first. -/
def number (base count : Nat) : Decode Nat := return (← numberFrom base 1 count) - Nat.pow 2 count

/-- A number of `count` bits, the lowest first, each of which counts `weight` or more. -/
def lowNumber (base high weight : Nat) : Nat → Decode Nat
  | 0 => return 0
  | count + 1 => do
    let b ← decision (base + high)
    return b * weight + (← lowNumber base (2 * high + b) (2 * weight) count)

/-! ## 2. Places of probabilities -/

/-- Whether something new comes, by kind and place. -/
def newPlace : Nat := 0

/-- Whether a distance is one of the last four, by kind. -/
def againPlace : Nat := newPlace + 192

/-- Whether it is not the latest, by kind; then not the one before; then not the third. -/
def latestPlace : Nat := againPlace + 12

/-- Whether more than one byte comes from the latest distance, by kind and place. -/
def longPlace : Nat := latestPlace + 36

/-- The upper bits of distances, by length. -/
def slotPlace : Nat := longPlace + 192

/-- The lower bits of short distances. -/
def nearPlace : Nat := slotPlace + 256

/-- The lowest bits of long distances. -/
def alignPlace : Nat := nearPlace + 128

/-- The lengths of copies from new distances. -/
def lengthPlace : Nat := alignPlace + 16

/-- How many probabilities lengths have. -/
def lengthSize : Nat := 514

/-- Literals, by the bytes nearby. -/
def literalPlace : Nat := lengthPlace + 2 * lengthSize

/-! ## 3. Literals and copies -/

/-- Puts a byte behind what was expanded. -/
def emit (b : UInt8) : Decode Unit := modify fun s => { s with out := s.out.push b }

/-- The byte at a distance, less one. -/
def byteAt (s : Decoder) (distance : Nat) : UInt8 :=
  if s.out.size ≤ distance then 0 else s.out[s.out.size - 1 - distance]?.getD 0

/-- The bits of a literal behind `high`, as long as they are those of `likely`, the byte at
the latest distance; the probabilities are apart until the first that is not. -/
def likelyLiteral (base high likely : Nat) : Nat → Decode Nat
  | 0 => return high
  | count + 1 => do
    let expected := likely / Nat.pow 2 count % 2
    let b ← decision (base + 256 * (1 + expected) + high)
    if b = expected then likelyLiteral base (2 * high + b) likely count
    else numberFrom base (2 * high + b) count

/-- The kind behind a literal. -/
def kindOfLiteral (kind : Nat) : Nat :=
  if kind ≤ 3 then 0 else if kind ≤ 9 then kind - 3 else kind - 6

/-- A literal. -/
def literal (shape : RangeShape) : Decode Unit := do
  let s ← get
  let place := s.out.size % Nat.pow 2 shape.literalPlace * Nat.pow 2 shape.literalContext
    + (byteAt s 0).toNat / Nat.pow 2 (8 - shape.literalContext)
  let base := literalPlace + 0x300 * place
  let likely := (byteAt s (s.distances.headD 0)).toNat
  let b ← if s.kind < 7 then numberFrom base 1 8 else likelyLiteral base 1 likely 8
  modify fun s => { s with kind := kindOfLiteral s.kind }
  emit (UInt8.ofNat b)

/-- Copies `count` bytes from a distance, less one. -/
def copy (distance : Nat) : Nat → Decode Unit
  | 0 => return ()
  | count + 1 => do
    emit (byteAt (← get) distance)
    copy distance count

/-- The length of a copy. -/
def length (base place : Nat) : Decode Nat := do
  if (← decision base) = 0 then return 2 + (← number (base + 2 + 8 * place) 3)
  else if (← decision (base + 1)) = 0 then return 10 + (← number (base + 130 + 8 * place) 3)
  else return 18 + (← number (base + 258) 8)

/-- A new distance, less one, for a copy of some length. -/
def distance (length : Nat) : Decode Nat := do
  let slot ← number (slotPlace + 64 * min (length - 2) 3) 6
  if slot < 4 then return slot
  else
    let bits := slot / 2 - 1
    let high := 2 + slot % 2
    if slot < 14 then
      let low ← lowNumber (nearPlace + high * Nat.pow 2 bits - slot) 1 1 bits
      return high * Nat.pow 2 bits + low
    else
      let middle ← evenNumber high (bits - 4)
      return (16 * middle + (← lowNumber alignPlace 1 1 4)) % wordCount

/-- The distance that means the end. -/
def endDistance : Nat := wordCount - 1

/-- Which of the last four distances comes again. -/
def whichAgain (kind : Nat) : Decode Nat := do
  if (← decision (latestPlace + kind)) = 0 then return 0
  else if (← decision (latestPlace + 12 + kind)) = 0 then return 1
  else return 2 + (← decision (latestPlace + 24 + kind))

/-- A copy from a new distance, or the end; tells whether it is the end. -/
def newCopy (shape : RangeShape) (place : Nat) : Decode Bool := do
  let count ← length lengthPlace place
  let d ← distance count
  modify fun s => { s with
    kind := if s.kind < 7 then 7 else 10, distances := d :: s.distances.take 3 }
  let s ← get
  if d = endDistance then
    widen
    if (← get).code != 0 then throw .damaged
    return true
  else if min s.out.size shape.reach ≤ d then throw .damaged
  else
    copy d count
    return false

/-- A copy from one of the last four distances. -/
def oldCopy (place : Nat) : Decode Unit := do
  let s ← get
  if s.out.isEmpty then throw .damaged
  let which ← whichAgain s.kind
  let d := s.distances[which]?.getD 0
  let isLong ← if which = 0 then decision (longPlace + 16 * s.kind + place) else pure 1
  if isLong = 0 then
    modify fun s => { s with kind := if s.kind < 7 then 9 else 11 }
    copy d 1
  else
    modify fun s => { s with
      kind := if s.kind < 7 then 8 else 11, distances := d :: s.distances.eraseIdx which }
    copy d (← length (lengthPlace + lengthSize) place)

/-- The row up to its end, of at most `limit` literals and copies. -/
def row (shape : RangeShape) : Nat → Decode Unit
  | 0 => throw .cut
  | limit + 1 => do
    let s ← get
    let place := s.out.size % Nat.pow 2 shape.placeBits
    if (← decision (newPlace + 16 * s.kind + place)) = 0 then
      literal shape
      row shape limit
    else if (← decision (againPlace + s.kind)) = 0 then
      if ← newCopy shape place then return () else row shape limit
    else
      oldCopy place
      row shape limit

end Decode

/-! ## 4. Data -/

/-- The shape that five bytes describe: one for the counts of bits, four for the reach. -/
def RangeShape.ofBytes? : List UInt8 → Option RangeShape
  | [counts, a, b, c, d] =>
    let n := counts.toNat
    let reach := a.toNat + 256 * (b.toNat + 256 * (c.toNat + 256 * d.toNat))
    let shape := ⟨n % 9, n / 9 % 5, n / 45, (max reach 4096 + 15) / 16 * 16⟩
    if n < 225 && shape.literalContext + shape.literalPlace ≤ 4 then some shape else none
  | _ => none

/-- What range-coded data expand to, and why expanding stopped early if it did. A byte
holds less than 512 decisions, because no probability is so great that more would fit. -/
def expandRanged (shape : RangeShape) (bytes : List UInt8) : Except Halt Unit × List UInt8 :=
  match bytes with
  | [] => (.error .cut, [])
  | first :: rest =>
    if first != 0 then (.error .damaged, [])
    else if rest.length < 4 then (.error .cut, [])
    else
      let code := (rest.take 4).foldl (fun n b => 256 * n + b.toNat) 0
      let literals := 0x300 * Nat.pow 2 (shape.literalContext + shape.literalPlace)
      let odds := Array.replicate (Decode.literalPlace + literals) 1024
      let start : Decoder :=
        ⟨Decode.wordCount - 1, code, rest.drop 4, odds, #[], 0, [0, 0, 0, 0]⟩
      let (outcome, s) := ((Decode.row shape (512 * bytes.length)).run start).run
      (outcome, s.out.toList)

end ApiSurface.Archive
