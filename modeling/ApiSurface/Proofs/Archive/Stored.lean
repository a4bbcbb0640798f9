/-
ApiSurface.Proofs.Archive.Stored — entries that are kept without compression.

The data of an entry are found behind its header. When the header is in order, what is read
of an entry depends on its data only (`readEntry_eq_expand`), and data that are stored come
back as they are (`expand_stored`).
-/
import ApiSurface.Archive.Directory

namespace ApiSurface.Archive

theorem slice_mk (l : List UInt8) (start size : Nat) :
    slice ⟨l.toArray⟩ start size = (l.drop start).take size := by
  simp [slice, ByteArray.data_extract]

theorem size_mk (l : List UInt8) : (ByteArray.mk l.toArray).size = l.length := rfl

/-- What is stored is given back, when its sizes and its checksum are right. -/
theorem expand_stored {e : Entry} {content : List UInt8} (hmethod : e.method = 0)
    (hcompressed : e.compressedSize = content.length) (hsize : e.size = content.length)
    (hcrc : (crc32 content).toNat = e.crc) : expand e content = .ok content := by
  have hchecked : checked e content = .ok content := by
    rw [checked, hsize, List.take_length, if_pos hcrc]
  rw [expand, hmethod]
  cases content with
  | nil => simpa [Method.ofNumber?, hcompressed] using hchecked
  | cons b rest => simpa [Method.ofNumber?, Method.expand, hcompressed] using hchecked

/-- An entry whose header is in order gives what its data expand to. -/
theorem readEntry_eq_expand {a : Archive} {e : Entry} {start : Nat} {header : List UInt8}
    (hoffset : e.offset = start) (hbound : (start : Int) < placeBound)
    (hheader : slice a.bytes start 30 = header) (hwhole : header.length = 30)
    (hbegin : header.take 4 = [0x50, 0x4B, 3, 4]) (hsupported : e.flags &&& 0x60 = 0)
    (hplain : e.flags &&& 1 = 0)
    (hname : decodeName (field header 6 2) (slice a.bytes (start + 30) (field header 26 2)) =
      .ok e.fullName)
    (hstop : (min a.bytes.size (start + 30 + field header 26 2 + field header 28 2)
      + e.compressedSize : Nat) ≤ e.stop) :
    a.readEntry e = expand e (slice a.bytes (start + 30 + field header 26 2 + field header 28 2)
      e.compressedSize) := by
  have hplace : ¬ ((e.offset < -placeBound || placeBound ≤ e.offset) = true) := by
    have hbelow : -placeBound ≤ (start : Int) := by
      unfold placeBound
      omega
    simp [hbelow, hoffset, hbound]
  have hpositive : ¬ e.offset < 0 := by omega
  have hstart : e.offset.toNat = start := by rw [hoffset, Int.toNat_natCast]
  have hmark : ¬ ((header.length < 30 || header.take 4 != [0x50, 0x4B, 3, 4]) = true) := by
    simp [hwhole, hbegin]
  rw [readEntry, if_neg hplace, if_neg hpositive]
  simp only [hstart, hheader, if_neg hmark, hsupported, hplain, hname, bne_self_eq_false]
  simp only [Bool.false_eq_true, if_false, bind, Except.bind, bne_self_eq_false,
    if_neg (Int.not_lt.mpr hstop)]

end ApiSurface.Archive
