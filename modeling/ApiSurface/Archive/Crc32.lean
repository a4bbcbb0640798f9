/-
ApiSurface.Archive.Crc32 — the checksum of archive entries.

The checksum is the remainder of the data, seen as a polynomial over two
elements, by the polynomial 0xEDB88320 in reversed bit order, with the register
inverted before and after.
-/

namespace ApiSurface.Archive

/-- The polynomial in reversed bit order. -/
def polynomial : UInt32 := 0xEDB88320

/-- One bit of the division. -/
def crcBit (r : UInt32) : UInt32 :=
  if r &&& 1 == 1 then (r >>> 1) ^^^ polynomial else r >>> 1

/-- `n` bits of the division. -/
def crcBits : Nat → UInt32 → UInt32
  | 0, r => r
  | n + 1, r => crcBits n (crcBit r)

/-- The register after one more byte. -/
def crcByte (r : UInt32) (b : UInt8) : UInt32 :=
  crcBits 8 (r ^^^ b.toUInt32)

/-- The checksum of some bytes. -/
def crc32 (bytes : List UInt8) : UInt32 :=
  bytes.foldl crcByte 0xFFFFFFFF ^^^ 0xFFFFFFFF

end ApiSurface.Archive
