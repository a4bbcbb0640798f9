/-
ApiSurface.Proofs.ClassFile.Utf16 — what 16-bit units are read as.

The units of a text in a class file need not come from a text: half of a pair of surrogates
may stand alone. A surrogate has its partner beside it or nowhere, so which units are unpaired
is told by their neighbours (`IsUnpaired`), and reading puts U+FFFD in their places and leaves
all other units alone (`Mends`). A text is known by its units, so this says which text is read.

Ordinary UTF-8 spells a character above U+FFFF in four bytes, and U+0000 in one. These bytes are
read like the units of the character, wherever they stand among units (`decode?_flatMap_bytes`).
So decoding undoes either encoding (`decode?_encode_mends`).
-/
import ApiSurface.Proofs.ClassFile.CodePoints
import ApiSurface.Proofs.ClassFile.ModifiedUtf8

namespace ApiSurface.ModifiedUtf8

/-! ## 1. Unpaired surrogates -/

/-- The first unit of a pair. -/
def IsLeading (u : Nat) : Prop := 0xD800 ≤ u ∧ u < 0xDC00

/-- The second unit of a pair. -/
def IsTrailing (u : Nat) : Prop := 0xDC00 ≤ u ∧ u < 0xE000

/-- The unit at a place is a surrogate without its partner: no second unit follows a first one,
or no first unit stands before a second one. -/
def IsUnpaired (us : List Nat) (i : Nat) : Prop :=
  (∃ u, us[i]? = some u ∧ IsLeading u ∧ ∀ next, us[i + 1]? = some next → ¬ IsTrailing next) ∨
    ∃ u, us[i]? = some u ∧ IsTrailing u ∧
      ∀ j previous, j + 1 = i → us[j]? = some previous → ¬ IsLeading previous

/-- Units are those of others, with U+FFFD in the place of every unpaired surrogate. -/
structure Mends (us mended : List Nat) : Prop where
  length : mended.length = us.length
  unpaired : ∀ i, IsUnpaired us i → mended[i]? = some 0xFFFD
  kept : ∀ i, ¬ IsUnpaired us i → mended[i]? = us[i]?

theorem isLeading_iff {u : Nat} : IsLeading u ↔ isHigh u = true := by
  rw [isHigh_iff, IsLeading]
  omega

theorem isTrailing_iff {u : Nat} : IsTrailing u ↔ isLow u = true := by
  rw [isLow_iff, IsTrailing]
  omega

/-! ## 2. Units between their neighbours -/

/-- Whether a unit is unpaired between two neighbours. -/
def isUnpairedBetween (before : Option Nat) (u : Nat) (after : Option Nat) : Bool :=
  isHigh u && !after.any isLow || isLow u && !before.any isHigh

/-- Units behind another one, with U+FFFD in the place of every unpaired surrogate. -/
def mendedAfter : Option Nat → List Nat → List Nat
  | _, [] => []
  | before, u :: rest =>
    (if isUnpairedBetween before u rest.head? then 0xFFFD else u) :: mendedAfter (some u) rest

theorem length_mendedAfter (before : Option Nat) (us : List Nat) :
    (mendedAfter before us).length = us.length := by
  induction us generalizing before with
  | nil => rfl
  | cons u rest ih => rw [mendedAfter, List.length_cons, List.length_cons, ih]

/-- Each unit is mended by its neighbours alone. -/
theorem getElem?_mendedAfter (before : Option Nat) (us : List Nat) (i : Nat) :
    (mendedAfter before us)[i]? = us[i]?.map fun u =>
      if isUnpairedBetween ((before :: us.map some)[i]?.join) u us[i + 1]? then 0xFFFD else u := by
  induction us generalizing before i with
  | nil => rfl
  | cons u rest ih =>
    cases i with
    | zero => simp [mendedAfter, List.head?_eq_getElem?]
    | succ i => simpa [mendedAfter] using ih (some u) i

theorem isUnpaired_iff {us : List Nat} {i u : Nat} (hu : us[i]? = some u) :
    IsUnpaired us i ↔
      isUnpairedBetween ((none :: us.map some)[i]?.join) u us[i + 1]? = true := by
  unfold IsUnpaired isUnpairedBetween
  simp only [hu, Option.some.injEq, exists_eq_left', isLeading_iff, isTrailing_iff,
    Bool.or_eq_true, Bool.and_eq_true, Bool.not_eq_true']
  refine or_congr (and_congr_right fun _ => ?_) (and_congr_right fun _ => ?_)
  · cases us[i + 1]? <;> simp
  · cases i with
    | zero => simp
    | succ j =>
      have hjoin : (none :: us.map some)[j + 1]?.join = us[j]? := by
        rw [List.getElem?_cons_succ, List.getElem?_map]
        cases us[j]? <;> rfl
      rw [hjoin]
      constructor
      · intro h
        cases hj : us[j]? with
        | none => rfl
        | some previous => simpa using h j previous rfl hj
      · intro h k previous hk hprevious
        obtain rfl := Nat.succ.inj hk
        rw [hprevious] at h
        simpa using h

theorem mends_mendedAfter (us : List Nat) : Mends us (mendedAfter none us) where
  length := length_mendedAfter none us
  unpaired i h := by
    obtain ⟨u, hu⟩ : ∃ u, us[i]? = some u := by
      rcases h with ⟨u, hu, -⟩ | ⟨u, hu, -⟩ <;> exact ⟨u, hu⟩
    rw [getElem?_mendedAfter, hu, Option.map_some, if_pos ((isUnpaired_iff hu).mp h)]
  kept i h := by
    rw [getElem?_mendedAfter]
    cases hu : us[i]? with
    | none => rfl
    | some u => rw [Option.map_some, if_neg (mt (isUnpaired_iff hu).mpr h)]

/-! ## 3. Numbers and units -/

/-- The units of the number of a code point: itself, or a pair of surrogates. -/
def unitsOfPoint (p : Nat) : List Nat :=
  if p < 0x10000 then [p]
  else [0xD800 + (p - 0x10000) / 0x400, 0xDC00 + (p - 0x10000) % 0x400]

theorem isHigh_eq_false_of_isLow {u : Nat} (h : isLow u = true) : isHigh u = false := by
  rw [isLow_iff] at h
  rw [Bool.eq_false_iff, Ne, isHigh_iff]
  omega

theorem isLow_eq_false_of_isHigh {u : Nat} (h : isHigh u = true) : isLow u = false := by
  rw [isHigh_iff] at h
  rw [Bool.eq_false_iff, Ne, isLow_iff]
  omega

/-- The units of a pair are not mended, whatever stands around them. -/
theorem mendedAfter_pair {high low : Nat} (hhigh : isHigh high = true) (hlow : isLow low = true)
    (before : Option Nat) (us : List Nat) :
    mendedAfter before (high :: low :: us) = high :: low :: mendedAfter (some low) us := by
  simp [mendedAfter, isUnpairedBetween, hhigh, hlow, isLow_eq_false_of_isHigh hhigh,
    isHigh_eq_false_of_isLow hlow]

/-- A surrogate that has no partner beside it is mended alone. -/
theorem mendedAfter_lone {before : Option Nat} {p : Nat} (hp : p < 0x10000) {us : List Nat}
    (hbefore : isLow p = true → before.any isHigh = false)
    (hafter : isHigh p = true → us.head?.any isLow = false) :
    mendedAfter before (p :: us) = unitsOf (mendLone p) ++ mendedAfter (some p) us := by
  have hunpaired : isUnpairedBetween before p us.head? = (isHigh p || isLow p) := by
    unfold isUnpairedBetween
    cases hhigh : isHigh p with
    | true => simp [hafter hhigh]
    | false =>
      cases hlow : isLow p with
      | true => simp [hbefore hlow]
      | false => rfl
  have hunits : unitsOf (mendLone p) = [mendedLone p] := by
    have hlt : mendedLone p < 0x10000 := by
      unfold mendedLone
      split_ifs
      · decide
      · exact hp
    rw [unitsOf, toNat_mendLone (by omega), if_pos hlt]
  rw [mendedAfter, hunpaired, hunits, mendedLone, List.singleton_append]
  simp only [isHigh_or_isLow_iff]

/-- A number that has no partner beside it is mended alone, in one unit or in two. Behind two
units no pair is open. -/
theorem mendedAfter_point {before : Option Nat} {p : Nat} (hp : p < 0x110000) (us : List Nat)
    (hbefore : isLow p = true → before.any isHigh = false)
    (hafter : isHigh p = true → us.head?.any isLow = false) :
    ∃ last, (isHigh last = true → isHigh p = true) ∧
      mendedAfter before (unitsOfPoint p ++ us) =
        unitsOf (mendLone p) ++ mendedAfter (some last) us := by
  unfold unitsOfPoint
  split_ifs with h
  · exact ⟨p, id, mendedAfter_lone h hbefore hafter⟩
  · have hhigh : isHigh (0xD800 + (p - 0x10000) / 0x400) = true := isHigh_iff.mpr (by omega)
    have hlow : isLow (0xDC00 + (p - 0x10000) % 0x400) = true := isLow_iff.mpr (by omega)
    have hmended : mendedLone p = p := by
      unfold mendedLone isSurrogate
      exact if_neg (by omega)
    refine ⟨0xDC00 + (p - 0x10000) % 0x400, ?_, ?_⟩
    · rw [isHigh_eq_false_of_isLow hlow]
      exact nofun
    · rw [unitsOf, toNat_mendLone hp, hmended, if_neg h]
      exact mendedAfter_pair hhigh hlow before us

/-- Only a number that ends a pair has a unit in front that does. -/
theorem isLow_head?_unitsOfPoint {q : Nat} (hq : q < 0x110000) (hlow : isLow q = false)
    (us : List Nat) : (unitsOfPoint q ++ us).head?.any isLow = false := by
  unfold unitsOfPoint
  split_ifs with h
  · exact hlow
  · rw [List.cons_append, List.head?_cons, Option.any_some]
    exact isLow_eq_false_of_isHigh (isHigh_iff.mpr (by omega))

/-- The units of the character of a pair are the pair. -/
theorem unitsOf_joinPair {p q : Nat} (h : (isHigh p && isLow q) = true) :
    unitsOf (joinPair p q) = [p, q] := by
  have hbounds := joined_bounds h
  have hhigh : 0xD800 + (joined p q - 0x10000) / 0x400 = p := by
    rw [Bool.and_eq_true, isHigh_iff, isLow_iff] at h
    unfold joined
    omega
  have hlow : 0xDC00 + (joined p q - 0x10000) % 0x400 = q := by
    rw [Bool.and_eq_true, isHigh_iff, isLow_iff] at h
    unfold joined
    omega
  rw [unitsOf, toNat_joinPair h, if_neg (by omega), hhigh, hlow]

/-- The units of a text that numbers spell are those of the numbers, mended. -/
theorem flatMap_unitsOf_mend {before : Option Nat} {ps : List Nat} (hps : ∀ p ∈ ps, p < 0x110000)
    (hbefore : ∀ p, ps.head? = some p → isLow p = true → before.any isHigh = false) :
    (mend ps).flatMap unitsOf = mendedAfter before (ps.flatMap unitsOfPoint) := by
  induction ps using mend.induct generalizing before with
  | case1 => rfl
  | case2 p =>
    obtain ⟨last, -, hlast⟩ := mendedAfter_point (hps p List.mem_cons_self) []
      (hbefore p rfl) fun _ => rfl
    rw [mend, List.flatMap_singleton, List.flatMap_singleton, ← List.append_nil (unitsOfPoint p),
      hlast, mendedAfter, List.append_nil]
  | case3 p q rest hpair ih =>
    have hrest : ∀ n ∈ rest, n < 0x110000 := fun n hn =>
      hps n (List.mem_cons_of_mem _ (List.mem_cons_of_mem _ hn))
    obtain ⟨hhigh, hlow⟩ := Bool.and_eq_true_iff.mp hpair
    have hp : unitsOfPoint p = [p] := if_pos (by rw [isHigh_iff] at hhigh; omega)
    have hq : unitsOfPoint q = [q] := if_pos (by rw [isLow_iff] at hlow; omega)
    have hbehind : ∀ n, rest.head? = some n → isLow n = true → (some q).any isHigh = false :=
      fun _ _ _ => isHigh_eq_false_of_isLow hlow
    rw [mend, if_pos hpair, List.flatMap_cons, unitsOf_joinPair hpair, ih hrest hbehind,
      List.flatMap_cons, List.flatMap_cons, hp, hq]
    exact (mendedAfter_pair hhigh hlow before _).symm
  | case4 p q rest hpair ih =>
    have hrest : ∀ n ∈ q :: rest, n < 0x110000 := fun n hn => hps n (List.mem_cons_of_mem _ hn)
    have hno : isHigh p = true → isLow q = false := fun hp => by simpa [hp] using hpair
    obtain ⟨last, hlast, heq⟩ := mendedAfter_point (hps p List.mem_cons_self)
      ((q :: rest).flatMap unitsOfPoint) (hbefore p rfl)
      fun hp => isLow_head?_unitsOfPoint (hrest q List.mem_cons_self) (hno hp) _
    have hbehind : ∀ n, (q :: rest).head? = some n → isLow n = true →
        (some last).any isHigh = false := by
      -- Behind an open pair the next number would have ended it, and been joined.
      intro n hn hlow
      obtain rfl := Option.some.inj hn
      rw [Option.any_some, Bool.eq_false_iff]
      intro hhigh
      rw [hno (hlast hhigh)] at hlow
      cases hlow
    rw [mend, if_neg hpair, List.flatMap_cons, List.flatMap_cons, heq, ih hrest hbehind]

/-! ## 4. Ordinary UTF-8 -/

/-- The bits of a number from `0x10000` on, six to a byte, give the number. -/
theorem points?_fourBytes {v : Nat} (hv : 0x10000 ≤ v) (hv' : v < 0x110000) (rest : List UInt8) :
    points? (UInt8.ofNat (0xF0 + v / 0x40000) :: UInt8.ofNat (0x80 + v / 0x1000 % 0x40) ::
      UInt8.ofNat (0x80 + v / 0x40 % 0x40) :: UInt8.ofNat (0x80 + v % 0x40) :: rest) =
      (points? rest).map (v :: ·) := by
  have ha : (UInt8.ofNat (0xF0 + v / 0x40000)).toNat = 0xF0 + v / 0x40000 :=
    toNat_ofNat_of_lt (by omega)
  have hb : (UInt8.ofNat (0x80 + v / 0x1000 % 0x40)).toNat = 0x80 + v / 0x1000 % 0x40 :=
    toNat_ofNat_of_lt (by omega)
  have hsecond : secondOfFour (UInt8.ofNat (0xF0 + v / 0x40000))
      (UInt8.ofNat (0x80 + v / 0x1000 % 0x40)) = true := by
    rw [secondOfFour, isContinuation_ofNat (by omega), Bool.true_and, Bool.and_eq_true,
      Bool.or_eq_true, Bool.or_eq_true, bne_iff_ne, bne_iff_ne, decide_eq_true_eq,
      decide_eq_true_eq, UInt8.le_iff_toNat_le, UInt8.le_iff_toNat_le, hb, Ne, Ne,
      ← UInt8.toNat_inj, ← UInt8.toNat_inj, ha]
    change (¬ 240 + v / 262144 = 240 ∨ 144 ≤ 128 + v / 4096 % 64) ∧
      (¬ 240 + v / 262144 = 244 ∨ 128 + v / 4096 % 64 ≤ 143)
    omega
  have hvalue : (0xF0 + v / 0x40000) % 0x08 * 0x40000 + v / 0x1000 % 0x40 * 0x1000
      + v / 0x40 % 0x40 * 0x40 + v % 0x40 = v := by omega
  rw [points?_four (by omega) (by omega) hsecond (isContinuation_ofNat (by omega))
    (isContinuation_ofNat (by omega)), payload_ofNat (by omega), payload_ofNat (by omega),
    payload_ofNat (by omega), ha, hvalue]

/-- The bytes that ordinary UTF-8 has for a character give its number, whatever follows them. -/
theorem points?_utf8EncodeChar (c : Char) (rest : List UInt8) :
    points? (String.utf8EncodeChar c ++ rest) = (points? rest).map (c.toNat :: ·) := by
  have hvalid : c.val.toNat < 0xD800 ∨ 0xDFFF < c.val.toNat ∧ c.val.toNat < 0x110000 := c.valid
  change points? (String.utf8EncodeChar c ++ rest) = (points? rest).map (c.val.toNat :: ·)
  unfold String.utf8EncodeChar
  dsimp only
  generalize c.val.toNat = v at hvalid ⊢
  -- Two and three bytes are those of the unit; zero has one byte here and two there.
  split_ifs with h1 h2 h3
  · have hb : (UInt8.ofNat v).toNat = v := toNat_ofNat_of_lt (by omega)
    rw [List.singleton_append, points?_cons_of_lt (by rw [hb]; omega), hb]
  · have hfirst : v / 64 % 32 + 192 = 0xC0 + v / 0x40 := by omega
    rw [← points?_encodeUnit (by omega) rest, encodeUnit, if_neg (by omega), if_neg (by omega),
      if_pos (by omega), hfirst, Nat.add_comm (v % 64)]
  · have hfirst : v / 4096 % 16 + 224 = 0xE0 + v / 0x1000 := by omega
    rw [← points?_encodeUnit (by omega) rest, encodeUnit, if_neg (by omega), if_neg (by omega),
      if_neg (by omega), hfirst, Nat.add_comm (v / 64 % 64), Nat.add_comm (v % 64)]
  · have hfirst : v / 262144 % 8 + 240 = 0xF0 + v / 0x40000 := by omega
    rw [← points?_fourBytes (by omega) (by omega) rest, hfirst, Nat.add_comm (v / 4096 % 64),
      Nat.add_comm (v / 64 % 64), Nat.add_comm (v % 64)]
    rfl

/-- A piece of a text as bytes: a unit that stands on its own, or a character in ordinary
UTF-8. -/
inductive Piece where
  | unit (u : UInt16)
  | character (c : Char)

/-- The bytes of a piece. -/
def Piece.bytes : Piece → List UInt8
  | .unit u => encodeUnit u.toNat
  | .character c => String.utf8EncodeChar c

/-- The units of a piece. -/
def Piece.units : Piece → List Nat
  | .unit u => [u.toNat]
  | .character c => unitsOf c

/-- The number of a piece. -/
def Piece.point : Piece → Nat
  | .unit u => u.toNat
  | .character c => c.toNat

theorem Piece.point_lt (piece : Piece) : piece.point < 0x110000 := by
  cases piece with
  | unit u => exact Nat.lt_trans u.toNat_lt (by decide)
  | character c =>
    have hvalid := toNat_not_surrogate c
    change c.toNat < 0x110000
    omega

theorem Piece.lt_of_mem_units {piece : Piece} {u : Nat} (hu : u ∈ piece.units) : u < 0x10000 := by
  cases piece with
  | unit unit => exact List.mem_singleton.mp hu ▸ unit.toNat_lt
  | character c => exact lt_of_mem_unitsOf hu

theorem Piece.unitsOfPoint_point (piece : Piece) : unitsOfPoint piece.point = piece.units := by
  cases piece with
  | unit u => exact if_pos u.toNat_lt
  | character c => rfl

theorem points?_flatMap_bytes (pieces : List Piece) :
    points? (pieces.flatMap Piece.bytes) = some (pieces.map Piece.point) := by
  induction pieces with
  | nil => rfl
  | cons piece pieces ih =>
    rw [List.flatMap_cons]
    cases piece with
    | unit u =>
      change points? (encodeUnit u.toNat ++ _) = _
      rw [points?_encodeUnit u.toNat_lt, ih]
      rfl
    | character c =>
      change points? (String.utf8EncodeChar c ++ _) = _
      rw [points?_utf8EncodeChar, ih]
      rfl

/-- The units of the text of numbers are theirs, mended. -/
theorem mends_units_ofList_mend {ps : List Nat} (h : ∀ p ∈ ps, p < 0x110000) :
    Mends (ps.flatMap unitsOfPoint) (units (String.ofList (mend ps))) := by
  have hnone : ∀ p, ps.head? = some p → isLow p = true → (none : Option Nat).any isHigh = false :=
    fun _ _ _ => rfl
  rw [units, String.toList_ofList, flatMap_unitsOf_mend h hnone]
  exact mends_mendedAfter _

/-- Units have one way to be mended. -/
theorem Mends.unique {us vs ws : List Nat} (hvs : Mends us vs) (hws : Mends us ws) : vs = ws := by
  refine List.ext_getElem? fun i => ?_
  by_cases h : IsUnpaired us i
  · rw [hvs.unpaired i h, hws.unpaired i h]
  · rw [hvs.kept i h, hws.kept i h]

/-- The units of units are the units themselves. -/
theorem flatMap_unitsOfPoint {us : List Nat} (h : ∀ u ∈ us, u < 0x10000) :
    us.flatMap unitsOfPoint = us := by
  induction us with
  | nil => rfl
  | cons u us ih =>
    obtain ⟨hu, hus⟩ := List.forall_mem_cons.mp h
    rw [List.flatMap_cons, ih hus, unitsOfPoint, if_pos hu, List.singleton_append]

/-- The text of units has the units, mended. -/
theorem mends_units_textOf {us : List Nat} (h : ∀ u ∈ us, u < 0x10000) :
    Mends us (units (textOf us)) := by
  have hmends := mends_units_ofList_mend fun u hu => Nat.lt_trans (h u hu) (by decide)
  rwa [flatMap_unitsOfPoint h] at hmends

/-- A text has the units of no other text. -/
theorem eq_of_units_eq {s t : String} (h : units s = units t) : s = t := by
  rw [← textOf_units s, h, textOf_units]

/-- Pieces are read like their units. -/
theorem decode?_flatMap_bytes (pieces : List Piece) :
    decode? (pieces.flatMap Piece.bytes) = decode? (encode (pieces.flatMap Piece.units)) := by
  have hunits : ∀ u ∈ pieces.flatMap Piece.units, u < 0x10000 := by
    intro u hu
    obtain ⟨piece, -, hu⟩ := List.mem_flatMap.mp hu
    exact Piece.lt_of_mem_units hu
  have hpoints : ∀ p ∈ pieces.map Piece.point, p < 0x110000 := by
    intro p hp
    obtain ⟨piece, -, rfl⟩ := List.mem_map.mp hp
    exact piece.point_lt
  have hsame : (pieces.map Piece.point).flatMap unitsOfPoint = pieces.flatMap Piece.units := by
    rw [List.flatMap_map, funext Piece.unitsOfPoint_point]
  have hmends := mends_units_ofList_mend hpoints
  rw [hsame] at hmends
  rw [decode?_encode hunits, decode?, points?_flatMap_bytes, Option.map_some]
  exact congrArg some (eq_of_units_eq (hmends.unique (mends_units_textOf hunits)))

/-- The bytes of a text in ordinary UTF-8 are those of its characters. -/
theorem toList_toUTF8 (s : String) :
    s.toUTF8.data.toList = (s.toList.map Piece.character).flatMap Piece.bytes := by
  have hencode : s.toUTF8 = s.toList.utf8Encode := by
    rw [← String.toByteArray_ofList, String.ofList_toList, String.toUTF8]
  rw [hencode, List.utf8Encode, List.data_toByteArray, List.flatMap_map]
  rfl

/-- Decoding undoes encoding. From any units it gives the text that has the same units, except
for U+FFFD in the places of unpaired surrogates; so it is exact on the units of a text. The
ordinary UTF-8 of a text gives the text, and characters in ordinary UTF-8, those of four bytes
included, are read like their units wherever they stand among units. -/
theorem decode?_encode_mends :
    (∀ us : List UInt16, ∃ s, decode? (encode (us.map UInt16.toNat)) = some s ∧
      Mends (us.map UInt16.toNat) (units s)) ∧
    (∀ s : String, decode? (encode (units s)) = some s) ∧
    (∀ s : String, decode? s.toUTF8.data.toList = some s) ∧
    ∀ pieces : List Piece,
      decode? (pieces.flatMap Piece.bytes) = decode? (encode (pieces.flatMap Piece.units)) := by
  have hexact : ∀ s : String, decode? (encode (units s)) = some s := fun s => by
    rw [decode?_encode fun _ => lt_of_mem_units, textOf_units]
  refine ⟨fun us => ?_, hexact, fun s => ?_, decode?_flatMap_bytes⟩
  · have hus : ∀ u ∈ us.map UInt16.toNat, u < 0x10000 := by
      intro u hu
      obtain ⟨unit, -, rfl⟩ := List.mem_map.mp hu
      exact unit.toNat_lt
    exact ⟨textOf (us.map UInt16.toNat), decode?_encode hus, mends_units_textOf hus⟩
  · rw [toList_toUTF8, decode?_flatMap_bytes, List.flatMap_map]
    exact hexact s

/-! A zero in two bytes; a pair, each half in three bytes; a first half, and then the four bytes
of a character. -/

example : decode? [0x61, 0xC0, 0x80, 0x62] = some "a\x00b" := by decide

example : decode? [0xED, 0xA0, 0xBD, 0xED, 0xB8, 0x80] = some "😀" := by decide

example : decode? [0xED, 0xA0, 0xBD, 0xF0, 0x9F, 0x98, 0x80] = some "\uFFFD😀" := by decide

end ApiSurface.ModifiedUtf8
