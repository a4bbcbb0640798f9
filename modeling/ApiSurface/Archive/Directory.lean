/-
ApiSurface.Archive.Directory — archives and their entries.

An archive ends with a record that says where its directory is. The directory
lists the entries in order, each with its name, sizes, checksum and the place of
its data. Data may stand before the archive: places are then off by the size of
it, which follows from where the last record was found.

An entry has a header of its own before its data, and the name there must agree
with the directory. Its data must end before the next entry starts, and those of
the last entry before the directory does. So no bytes serve two entries, and a
small archive cannot expand to more than its bytes allow. Entries are stored,
deflated, block-sorted or range-coded. Where two entries have one name, that name
means the last of them.
-/
import ApiSurface.Archive.BlockSort
import ApiSurface.Archive.Crc32
import ApiSurface.Archive.Inflate
import ApiSurface.Archive.RangeCode

namespace ApiSurface

namespace Archive

/-- How the data of an entry are kept. -/
inductive Method where
  | stored
  | deflated
  /-- Block-sorted. -/
  | sorted
  /-- Range-coded. -/
  | ranged
deriving DecidableEq

/-- Why an archive, or one of its entries, cannot be read. -/
inductive Flaw where
  /-- The bytes are no archive, or its directory or an entry's header is damaged. -/
  | damaged
  /-- The data of an entry are not what the method gives. -/
  | badData (how : Method)
  /-- The data of an entry end too early. -/
  | cutShort
  /-- An entry lies before the start of the file. -/
  | badOffset
  /-- An entry lies at a place that no file reaches. -/
  | noSuchPlace
  /-- An entry reaches into what stands behind it. -/
  | overlapping
  /-- An entry has no name. -/
  | nameless
  /-- The name of an entry is marked as UTF-8 and is not. -/
  | badName
  /-- The archive uses a feature that is not supported. -/
  | unsupported
  /-- An entry is encrypted. -/
  | encrypted
deriving DecidableEq

/-- What is wrong, in words. -/
def Flaw.message : Flaw → String
  | .damaged => "not an archive, or a damaged one"
  | .badData _ => "damaged compressed data"
  | .cutShort => "data end too early"
  | .badOffset => "entry before the start of the file"
  | .noSuchPlace => "entry at a place that no file reaches"
  | .overlapping => "entry reaches into the next one"
  | .nameless => "entry without a name"
  | .badName => "entry name is not text"
  | .unsupported => "unsupported kind of archive"
  | .encrypted => "encrypted entry"

/-- One line of the directory. -/
structure Line where
  /-- The name up to the first null character. -/
  name : String
  /-- The whole name. -/
  fullName : String
  flags : Nat
  method : Nat
  crc : Nat
  compressedSize : Nat
  size : Nat
  /-- Where the entry's header starts. -/
  offset : Int

/-- An entry: its line of the directory, and how far it may reach. -/
structure Entry extends Line where
  /-- Where the next entry starts, or else the directory. -/
  stop : Int

end Archive

/-- An archive: its bytes, and its directory in order. -/
structure Archive where
  bytes : ByteArray
  entries : List Archive.Entry

namespace Archive

/-! ## 1. Fields -/

/-- Some bytes of an array; fewer when the array ends before. -/
def slice (b : ByteArray) (start size : Nat) : List UInt8 :=
  (b.extract start (start + size)).data.toList

/-- The number that bytes spell, the least significant first. -/
def ofLittleEndian : List UInt8 → Nat
  | [] => 0
  | b :: rest => b.toNat + 256 * ofLittleEndian rest

/-- The number in `size` bytes at a place of a record. -/
def field (record : List UInt8) (start size : Nat) : Nat :=
  ofLittleEndian ((record.drop start).take size)

/-- The upper half of the character set of old archives. -/
def oldCharacters : List Nat := [
  0x00C7, 0x00FC, 0x00E9, 0x00E2, 0x00E4, 0x00E0, 0x00E5, 0x00E7, 0x00EA, 0x00EB, 0x00E8,
  0x00EF, 0x00EE, 0x00EC, 0x00C4, 0x00C5, 0x00C9, 0x00E6, 0x00C6, 0x00F4, 0x00F6, 0x00F2,
  0x00FB, 0x00F9, 0x00FF, 0x00D6, 0x00DC, 0x00A2, 0x00A3, 0x00A5, 0x20A7, 0x0192, 0x00E1,
  0x00ED, 0x00F3, 0x00FA, 0x00F1, 0x00D1, 0x00AA, 0x00BA, 0x00BF, 0x2310, 0x00AC, 0x00BD,
  0x00BC, 0x00A1, 0x00AB, 0x00BB, 0x2591, 0x2592, 0x2593, 0x2502, 0x2524, 0x2561, 0x2562,
  0x2556, 0x2555, 0x2563, 0x2551, 0x2557, 0x255D, 0x255C, 0x255B, 0x2510, 0x2514, 0x2534,
  0x252C, 0x251C, 0x2500, 0x253C, 0x255E, 0x255F, 0x255A, 0x2554, 0x2569, 0x2566, 0x2560,
  0x2550, 0x256C, 0x2567, 0x2568, 0x2564, 0x2565, 0x2559, 0x2558, 0x2552, 0x2553, 0x256B,
  0x256A, 0x2518, 0x250C, 0x2588, 0x2584, 0x258C, 0x2590, 0x2580, 0x03B1, 0x00DF, 0x0393,
  0x03C0, 0x03A3, 0x03C3, 0x00B5, 0x03C4, 0x03A6, 0x0398, 0x03A9, 0x03B4, 0x221E, 0x03C6,
  0x03B5, 0x2229, 0x2261, 0x00B1, 0x2265, 0x2264, 0x2320, 0x2321, 0x00F7, 0x2248, 0x00B0,
  0x2219, 0x00B7, 0x221A, 0x207F, 0x00B2, 0x25A0, 0x00A0]

/-- A name in the character set of old archives. -/
def oldName (bytes : List UInt8) : String :=
  String.ofList (bytes.map fun b =>
    if b < 0x80 then Char.ofNat b.toNat
    else Char.ofNat (oldCharacters[b.toNat - 0x80]?.getD 0))

/-- The flag that marks a name as UTF-8. -/
def utf8Flag : Nat := 0x800

/-- A name of an entry with the given flags. -/
def decodeName (flags : Nat) (bytes : List UInt8) : Except Flaw String :=
  if flags &&& utf8Flag != 0 then
    match String.fromUTF8? ⟨bytes.toArray⟩ with
    | some s => .ok s
    | none => .error .badName
  else .ok (oldName bytes)

/-! ## 2. The last record -/

/-- Where the directory is, by the last record of an archive. -/
structure EndRecord where
  /-- The size of the directory. -/
  size : Nat
  /-- The place of the directory, when nothing stands before the archive. -/
  offset : Nat
  /-- The place of the record and of the extended records before it. -/
  location : Int

/-- The signature of the last record. -/
def endSignature : List UInt8 := [0x50, 0x4B, 0x05, 0x06]

/-- The size of the last record without its comment. -/
def endSize : Nat := 22

/-- The last place from `start` on, among `count` places, where bytes stand. -/
def lastPlace? (b : ByteArray) (what : List UInt8) (start : Nat) : Nat → Option Nat
  | 0 => none
  | count + 1 =>
    if slice b (start + count) what.length == what then some (start + count)
    else lastPlace? b what start count

/-- The place of the last record. Without a comment it ends the file; else it is
looked for in the last bytes, as far back as a comment may reach. -/
def endPlace? (b : ByteArray) : Option Nat :=
  if b.size < endSize then none
  else
    let last := slice b (b.size - endSize) endSize
    if last.take 4 == endSignature && last.drop 20 == [0, 0] then some (b.size - endSize)
    else
      let start := b.size - 65536 - endSize
      match lastPlace? b endSignature start (b.size - start) with
      | some place => if b.size < place + endSize then none else some place
      | none => none

/-- The end record, from the extended one before it if there is one. -/
def endRecord (b : ByteArray) : Except Flaw EndRecord := do
  let some place := endPlace? b | .error .damaged
  let record := slice b place endSize
  let plain : EndRecord := ⟨field record 12 4, field record 16 4, place⟩
  if place < 20 then return plain
  let locator := slice b (place - 20) 20
  if locator.take 4 != [0x50, 0x4B, 0x06, 0x07] then return plain
  if field locator 4 4 != 0 || 1 < field locator 16 4 || place < 76 then .error .damaged
  let extended := slice b (place - 76) 56
  if extended.take 4 != [0x50, 0x4B, 0x06, 0x06] then return plain
  return ⟨field extended 40 8, field extended 48 8, (place : Int) - 76⟩

/-! ## 3. The directory -/

/-- The size of a directory line without its name, extra fields and comment. -/
def lineSize : Nat := 46

/-- The newest version of the format that is supported. -/
def newestVersion : Nat := 63

/-- The value that sends to an extra field for the real one. -/
def elsewhere : Nat := 0xFFFFFFFF

/-- A number from the front of an extended field, if it is needed. -/
def extended (needed : Bool) (value : Nat) (data : List UInt8) : Except Flaw (Nat × List UInt8) :=
  if needed then
    if data.length < 8 then .error .damaged else .ok (field data 0 8, data.drop 8)
  else .ok (value, data)

/-- A line with what its extra fields say of sizes and place; there are at most
`limit` fields. -/
def withExtra : Nat → Line → List UInt8 → Except Flaw Line
  | 0, e, _ => .ok e
  | limit + 1, e, extra =>
    if extra.length < 4 then .ok e
    else
      let size := field extra 2 2
      if extra.length < size + 4 then .error .damaged
      else do
        let e ← (if field extra 0 2 = 1 then do
            let data := (extra.drop 4).take size
            let (bigSize, data) ←
              extended (e.size = elsewhere || e.size = 0xFFFFFFFFFFFFFFFF) e.size data
            let (bigCompressed, data) ←
              extended (e.compressedSize = elsewhere) e.compressedSize data
            let (bigOffset, _) ← extended (e.offset = elsewhere) e.offset.toNat data
            .ok { e with size := bigSize, compressedSize := bigCompressed, offset := bigOffset }
          else .ok e : Except Flaw Line)
        withExtra limit e (extra.drop (size + 4))

/-- The lines of a directory of `size` bytes, of which `read` were read before;
there are at most `limit` lines. Places are shifted by `shift`. -/
def linesFrom (size : Nat) (shift : Int) : Nat → Nat → List UInt8 → Except Flaw (List Line)
  | 0, _, _ => .ok []
  | limit + 1, read, rest =>
    if size ≤ read then .ok []
    else do
      let line := rest.take lineSize
      if line.length < lineSize || line.take 4 != [0x50, 0x4B, 0x01, 0x02] then .error .damaged
      let nameSize := field line 28 2
      let extraSize := field line 30 2
      let commentSize := field line 32 2
      let flags := field line 8 2
      let rest := rest.drop lineSize
      let fullName ← decodeName flags (rest.take nameSize)
      if newestVersion < field line 6 1 then .error .unsupported
      let entry : Line := {
        name := String.ofList (fullName.toList.takeWhile (· != Char.ofNat 0))
        fullName, flags
        method := field line 10 2
        crc := field line 16 4
        compressedSize := field line 20 4
        size := field line 24 4
        offset := field line 42 4 }
      let extra := (rest.drop nameSize).take extraSize
      let entry ← withExtra extra.length entry extra
      let rest := rest.drop (nameSize + extraSize + commentSize)
      let read := read + lineSize + nameSize + extraSize + commentSize
      return { entry with offset := entry.offset + shift }
        :: (← linesFrom size shift limit read rest)

/-- The least of some places behind a place; the directory, where there is none. -/
def placeBehind (directory : Int) (places : List Int) (place : Int) : Int :=
  (places.filter (place < ·)).min?.getD directory

/-- The entries of some lines, `earlier` being the places of the lines before. Where lines
share a place, all but the first are left no room. -/
def entriesOf (directory : Int) (places earlier : List Int) : List Line → List Entry
  | [] => []
  | e :: rest =>
    let stop :=
      if earlier.contains e.offset then e.offset else placeBehind directory places e.offset
    { e with stop } :: entriesOf directory places (e.offset :: earlier) rest

/-- The archive that some bytes hold. -/
def ofBytes (b : ByteArray) : Except Flaw Archive := do
  let last ← endRecord b
  let start := last.location - last.size
  if start < 0 then .error .damaged
  let directory := slice b start.toNat last.size
  let lines ← linesFrom last.size (start - last.offset) (last.size + 1) 0 directory
  return ⟨b, entriesOf start (lines.map (·.offset)) [] lines⟩

/-! ## 4. Entries -/

/-- The entry that a name means: the last one of that name. -/
def entry? (a : Archive) (name : String) : Option Entry :=
  a.entries.reverse.find? (·.name == name)

/-- Whether an entry stands for a folder. -/
def Entry.isFolder (e : Entry) : Bool := e.name.toList.getLast? == some '/'

/-- What is expanded of an entry, cut to its size, when its checksum is right. -/
def checked (e : Entry) (found : List UInt8) : Except Flaw (List UInt8) :=
  let data := found.take e.size
  if (crc32 data).toNat = e.crc then .ok data else .error .damaged

/-- The method with a number. -/
def Method.ofNumber? : Nat → Option Method
  | 0 => some .stored
  | 8 => some .deflated
  | 12 => some .sorted
  | 14 => some .ranged
  | _ => none

/-- Range-coded data behind a version, and the shape with its size before it. -/
def expandShaped (raw : List UInt8) : Except Halt Unit × List UInt8 :=
  let start := 4 + field raw 2 2
  if raw.length ≤ 4 || raw.length ≤ start then (.error .cut, [])
  else
    match RangeShape.ofBytes? ((raw.take start).drop 4) with
    | some shape => expandRanged shape (raw.drop start)
    | none => (.error .damaged, [])

/-- What data expand to, and why expanding stopped early if it did. Stored data do not
tell where they end. -/
def Method.expand : Method → List UInt8 → Except Halt Unit × List UInt8
  | stored, raw => (.error .cut, raw)
  | deflated, raw => inflate raw
  | sorted, raw => expandSorted raw
  | ranged, raw => expandShaped raw

/-- The data of an entry, from its compressed form `raw`. Data that end before the
compressed size are enough if they give the whole entry. -/
def expand (e : Entry) (raw : List UInt8) : Except Flaw (List UInt8) :=
  match Method.ofNumber? e.method with
  | none => .error .unsupported
  | some method =>
    let isWhole := e.compressedSize ≤ raw.length
    if raw.isEmpty then (if isWhole then checked e [] else .error .cutShort)
    else
      match method.expand raw with
      | (.error .damaged, _) => .error (.badData method)
      | (.ok (), out) => checked e out
      | (.error .cut, out) =>
        if isWhole || e.size ≤ out.length then checked e out else .error .cutShort

/-- Places from here on are no places in a file. -/
def placeBound : Int := 0x8000000000000000

/-- The data of an entry. -/
def readEntry (a : Archive) (e : Entry) : Except Flaw (List UInt8) := do
  if e.offset < -placeBound || placeBound ≤ e.offset then .error .noSuchPlace
  if e.offset < 0 then .error .badOffset
  let header := slice a.bytes e.offset.toNat 30
  if header.length < 30 || header.take 4 != [0x50, 0x4B, 0x03, 0x04] then .error .damaged
  let nameSize := field header 26 2
  let start := e.offset.toNat + 30
  if e.flags &&& 0x60 != 0 then .error .unsupported
  let name ← decodeName (field header 6 2) (slice a.bytes start nameSize)
  if name != e.fullName then .error .damaged
  let dataStart := start + nameSize + field header 28 2
  if e.stop < (min a.bytes.size dataStart + e.compressedSize : Nat) then .error .overlapping
  if e.flags &&& 1 != 0 then .error .encrypted
  expand e (slice a.bytes dataStart e.compressedSize)

end Archive

end ApiSurface
