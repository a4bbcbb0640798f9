/-
ApiSurface.Proofs.ClassFile.ModifiedUtf8 — writing the texts of class files.

A class file writes 16-bit code units, each on its own: `encodeUnit` gives the bytes
of one. Reading gives the units back, whatever they are (`points?_encode`), and units
that come from a text give the text back (`mend_units`). Units that come from no text
have surrogates without a partner; reading puts the replacement character in place of
each of these.
-/
import ApiSurface.ClassFile.ModifiedUtf8
import Mathlib.Tactic.SplitIfs

namespace ApiSurface.ModifiedUtf8

/-! ## 1. Units -/

/-- The 16-bit code units of a character: itself, or a pair of surrogates. -/
def unitsOf (c : Char) : List Nat :=
  if c.toNat < 0x10000 then [c.toNat]
  else [0xD800 + (c.toNat - 0x10000) / 0x400, 0xDC00 + (c.toNat - 0x10000) % 0x400]

/-- The 16-bit code units of a text. -/
def units (s : String) : List Nat := s.toList.flatMap unitsOf

/-- The bytes of one unit: two for zero, and else as many as its bits need. -/
def encodeUnit (u : Nat) : List UInt8 :=
  if u = 0 then [0xC0, 0x80]
  else if u < 0x80 then [UInt8.ofNat u]
  else if u < 0x800 then [UInt8.ofNat (0xC0 + u / 0x40), UInt8.ofNat (0x80 + u % 0x40)]
  else [UInt8.ofNat (0xE0 + u / 0x1000), UInt8.ofNat (0x80 + u / 0x40 % 0x40),
    UInt8.ofNat (0x80 + u % 0x40)]

/-- The bytes of some units. -/
def encode (us : List Nat) : List UInt8 := us.flatMap encodeUnit

/-- The text that units spell, a replacement character for each lone surrogate. -/
def textOf (us : List Nat) : String := String.ofList (mend us)

/-! ## 2. Reading units back -/

theorem toNat_ofNat_of_lt {n : Nat} (h : n < 0x100) : (UInt8.ofNat n).toNat = n := by
  rw [UInt8.toNat_ofNat']
  exact Nat.mod_eq_of_lt h

theorem isContinuation_ofNat {n : Nat} (h : n < 0x40) :
    isContinuation (UInt8.ofNat (0x80 + n)) = true := by
  simp only [isContinuation, Bool.and_eq_true, decide_eq_true_eq, UInt8.le_iff_toNat_le,
    toNat_ofNat_of_lt (show 0x80 + n < 0x100 by omega)]
  change 128 ≤ 128 + n ∧ 128 + n ≤ 191
  omega

theorem payload_ofNat {n : Nat} (h : n < 0x40) : payload (UInt8.ofNat (0x80 + n)) = n := by
  rw [payload, toNat_ofNat_of_lt (by omega)]
  omega

theorem points?_cons_of_lt {a : UInt8} (ha : a.toNat < 0x80) (rest : List UInt8) :
    points? (a :: rest) = (points? rest).map (a.toNat :: ·) := by
  have hlt : a < 0x80 := by
    rw [UInt8.lt_iff_toNat_lt]
    exact ha
  rw [points?.eq_def]
  simp only [if_pos hlt]

/-- A byte from `0xC2` on does not stand alone, and does not begin a zero. -/
theorem begins_several {a : UInt8} (ha : 0xC2 ≤ a.toNat) : ¬ a < 0x80 ∧ (a == 0xC0) = false := by
  constructor
  · rw [UInt8.lt_iff_toNat_lt]
    change ¬ a.toNat < 128
    omega
  · rw [beq_eq_false_iff_ne]
    rintro rfl
    revert ha
    decide

/-- Two bytes spell a unit below `0x800`. -/
theorem points?_two {a b : UInt8} (ha : 0xC2 ≤ a.toNat) (ha' : a.toNat ≤ 0xDF)
    (hb : isContinuation b = true) (rest : List UInt8) :
    points? (a :: b :: rest) =
      (points? rest).map ((a.toNat % 0x20 * 0x40 + payload b) :: ·) := by
  obtain ⟨hone, hzero⟩ := begins_several ha
  have hle : 0xC2 ≤ a := UInt8.le_iff_toNat_le.mpr ha
  have hle' : a ≤ 0xDF := UInt8.le_iff_toNat_le.mpr ha'
  rw [points?.eq_def]
  simp only [if_neg hone, hzero, hle, hle', hb, Bool.false_and, Bool.false_eq_true, if_false,
    decide_true, Bool.true_and, if_true]

/-- Three bytes spell a unit from `0x800` on. -/
theorem points?_three {a b c : UInt8} (ha : 0xE0 ≤ a.toNat) (ha' : a.toNat ≤ 0xEF)
    (hb : secondOfThree a b = true) (hc : isContinuation c = true) (rest : List UInt8) :
    points? (a :: b :: c :: rest) =
      (points? rest).map ((a.toNat % 0x10 * 0x1000 + payload b * 0x40 + payload c) :: ·) := by
  obtain ⟨hone, hzero⟩ := begins_several (a := a) (by omega)
  have htwo : ¬ a ≤ 0xDF := by
    rw [UInt8.le_iff_toNat_le]
    change ¬ a.toNat ≤ 223
    omega
  have hle : 0xE0 ≤ a := UInt8.le_iff_toNat_le.mpr ha
  have hle' : a ≤ 0xEF := UInt8.le_iff_toNat_le.mpr ha'
  rw [points?.eq_def]
  simp only [if_neg hone, hzero, htwo, hle, hle', hb, hc, Bool.false_and, Bool.false_eq_true,
    if_false, decide_true, decide_false, Bool.and_false, Bool.and_true, if_true]

/-- Four bytes spell a number from `0x10000` on. -/
theorem points?_four {a b c d : UInt8} (ha : 0xF0 ≤ a.toNat) (ha' : a.toNat ≤ 0xF4)
    (hb : secondOfFour a b = true) (hc : isContinuation c = true) (hd : isContinuation d = true)
    (rest : List UInt8) :
    points? (a :: b :: c :: d :: rest) =
      (points? rest).map ((a.toNat % 0x08 * 0x40000 + payload b * 0x1000 + payload c * 0x40
        + payload d) :: ·) := by
  obtain ⟨hone, hzero⟩ := begins_several (a := a) (by omega)
  have htwo : ¬ a ≤ 0xDF := by
    rw [UInt8.le_iff_toNat_le]
    change ¬ a.toNat ≤ 223
    omega
  have hthree : ¬ a ≤ 0xEF := by
    rw [UInt8.le_iff_toNat_le]
    change ¬ a.toNat ≤ 239
    omega
  have hle : 0xF0 ≤ a := UInt8.le_iff_toNat_le.mpr ha
  have hle' : a ≤ 0xF4 := UInt8.le_iff_toNat_le.mpr ha'
  rw [points?.eq_def]
  simp only [if_neg hone, hzero, htwo, hthree, hle, hle', hb, hc, hd, Bool.false_and,
    Bool.false_eq_true, if_false, decide_true, decide_false, Bool.and_false, Bool.and_true,
    if_true]

/-- The bytes of a unit give the unit, whatever follows them. -/
theorem points?_encodeUnit {u : Nat} (hu : u < 0x10000) (rest : List UInt8) :
    points? (encodeUnit u ++ rest) = (points? rest).map (u :: ·) := by
  unfold encodeUnit
  split_ifs with h0 h1 h2
  · subst h0
    rw [List.cons_append, points?.eq_def]
    rfl
  · have hb : (UInt8.ofNat u).toNat = u := toNat_ofNat_of_lt (by omega)
    rw [List.singleton_append, points?_cons_of_lt (by rw [hb]; exact h1), hb]
  · have hb : (UInt8.ofNat (0xC0 + u / 0x40)).toNat = 0xC0 + u / 0x40 :=
      toNat_ofNat_of_lt (by omega)
    have hu' : (0xC0 + u / 0x40) % 0x20 * 0x40 + u % 0x40 = u := by omega
    rw [List.cons_append, List.singleton_append,
      points?_two (by omega) (by omega) (isContinuation_ofNat (by omega)),
      payload_ofNat (by omega), hb, hu']
  · have hb : (UInt8.ofNat (0xE0 + u / 0x1000)).toNat = 0xE0 + u / 0x1000 :=
      toNat_ofNat_of_lt (by omega)
    have hu' : (0xE0 + u / 0x1000) % 0x10 * 0x1000 + u / 0x40 % 0x40 * 0x40 + u % 0x40 = u := by
      omega
    have hsecond : secondOfThree (UInt8.ofNat (0xE0 + u / 0x1000))
        (UInt8.ofNat (0x80 + u / 0x40 % 0x40)) = true := by
      have hsecond : (UInt8.ofNat (0x80 + u / 0x40 % 0x40)).toNat = 0x80 + u / 0x40 % 0x40 :=
        toNat_ofNat_of_lt (by omega)
      rw [secondOfThree, isContinuation_ofNat (by omega), Bool.true_and, Bool.or_eq_true, bne_iff_ne,
        decide_eq_true_eq, UInt8.le_iff_toNat_le, hsecond, Ne, ← UInt8.toNat_inj, hb]
      change ¬ 224 + u / 4096 = 224 ∨ 160 ≤ 128 + u / 64 % 64
      omega
    rw [List.cons_append, List.cons_append, List.singleton_append,
      points?_three (by omega) (by omega) hsecond (isContinuation_ofNat (by omega)),
      payload_ofNat (by omega), payload_ofNat (by omega), hb, hu']

theorem points?_encode {us : List Nat} (h : ∀ u ∈ us, u < 0x10000) :
    points? (encode us) = some us := by
  induction us with
  | nil => rfl
  | cons u us ih =>
    rw [encode, List.flatMap_cons, points?_encodeUnit (h u List.mem_cons_self)]
    have htail := ih fun u' hu' => h u' (List.mem_cons_of_mem _ hu')
    rw [encode] at htail
    rw [htail]
    rfl

/-- The bytes of units spell the text of the units. -/
theorem decode?_encode {us : List Nat} (h : ∀ u ∈ us, u < 0x10000) :
    decode? (encode us) = some (textOf us) := by
  rw [decode?, points?_encode h]
  rfl

/-! ## 3. Texts and units -/

theorem isHigh_iff {n : Nat} : isHigh n = true ↔ 0xD800 ≤ n ∧ n ≤ 0xDBFF := by
  simp [isHigh]

theorem isLow_iff {n : Nat} : isLow n = true ↔ 0xDC00 ≤ n ∧ n ≤ 0xDFFF := by
  simp [isLow]

theorem mend_of_not_high {p : Nat} (h : isHigh p = false) (rest : List Nat) :
    mend (p :: rest) = mendLone p :: mend rest := by
  cases rest with
  | nil => rfl
  | cons q rest => simp [mend, h]

/-- The code point of a character is no surrogate. -/
theorem toNat_not_surrogate (c : Char) : c.toNat < 0xD800 ∨ 0xDFFF < c.toNat ∧ c.toNat < 0x110000 :=
  c.valid

/-- The units of a character give the character. -/
theorem mend_unitsOf (c : Char) (rest : List Nat) : mend (unitsOf c ++ rest) = c :: mend rest := by
  have hvalid := toNat_not_surrogate c
  unfold unitsOf
  split_ifs with h
  · have hhigh : isHigh c.toNat = false := by
      rw [Bool.eq_false_iff, Ne, isHigh_iff]
      omega
    have hlow : isLow c.toNat = false := by
      rw [Bool.eq_false_iff, Ne, isLow_iff]
      omega
    rw [List.singleton_append, mend_of_not_high hhigh, mendLone, hhigh, hlow]
    simp
  · have hhigh : isHigh (0xD800 + (c.toNat - 0x10000) / 0x400) = true := isHigh_iff.mpr (by omega)
    have hlow : isLow (0xDC00 + (c.toNat - 0x10000) % 0x400) = true := isLow_iff.mpr (by omega)
    have hpoint : 0x10000 + (0xD800 + (c.toNat - 0x10000) / 0x400 - 0xD800) * 0x400
        + (0xDC00 + (c.toNat - 0x10000) % 0x400 - 0xDC00) = c.toNat := by omega
    rw [List.cons_append, List.singleton_append, mend, hhigh, hlow, joinPair, hpoint]
    simp

theorem lt_of_mem_unitsOf {c : Char} {u : Nat} (hu : u ∈ unitsOf c) : u < 0x10000 := by
  have hvalid := toNat_not_surrogate c
  unfold unitsOf at hu
  split_ifs at hu with h
  · rw [List.mem_singleton] at hu
    omega
  · simp only [List.mem_cons, List.not_mem_nil, or_false] at hu
    omega

theorem lt_of_mem_units {s : String} {u : Nat} (hu : u ∈ units s) : u < 0x10000 := by
  obtain ⟨c, -, hu⟩ := List.mem_flatMap.mp hu
  exact lt_of_mem_unitsOf hu

theorem mend_flatMap_unitsOf (l : List Char) : mend (l.flatMap unitsOf) = l := by
  induction l with
  | nil => rfl
  | cons c l ih => rw [List.flatMap_cons, mend_unitsOf, ih]

/-- A text is what its units spell. -/
theorem textOf_units (s : String) : textOf (units s) = s := by
  rw [textOf, units, mend_flatMap_unitsOf, String.ofList_toList]

end ApiSurface.ModifiedUtf8
