/-
ApiSurface.Proofs.ClassFile.CodePoints — the code points of decoded texts.

Decoding makes characters, and a number in the range of surrogates has none. Here the same
is told by numbers alone: bytes spell numbers, a pair of surrogates is joined to one number,
and a surrogate without its partner gives way to the number of the replacement character
(`numbers?`). No surrogate is left (`not_surrogate_of_mem_mended`), and what decoding gives
has exactly these numbers (`numbers?_of_decode?`): no number is lost on the way to its
character.
-/
import ApiSurface.ClassFile.ModifiedUtf8
import ApiSurface.Proofs.Text.Alphabet

namespace ApiSurface.ModifiedUtf8

/-! ## 1. Numbers without surrogates -/

/-- Whether a number lies in the range of surrogates. -/
def isSurrogate (n : Nat) : Prop := 0xD800 ≤ n ∧ n ≤ 0xDFFF

instance (n : Nat) : Decidable (isSurrogate n) := inferInstanceAs (Decidable (_ ∧ _))

/-- The number that stands for a number on its own. -/
def mendedLone (p : Nat) : Nat := if isSurrogate p then 0xFFFD else p

/-- The number that a pair of surrogates stands for. -/
def joined (p q : Nat) : Nat := 0x10000 + (p - 0xD800) * 0x400 + (q - 0xDC00)

/-- Numbers with pairs of surrogates joined, and lone surrogates replaced. -/
def mended : List Nat → List Nat
  | [] => []
  | [p] => [mendedLone p]
  | p :: q :: rest =>
    if isHigh p && isLow q then joined p q :: mended rest else mendedLone p :: mended (q :: rest)

/-- The numbers of the code points that bytes spell, if they are well formed. -/
def numbers? (bytes : List UInt8) : Option (List Nat) := (points? bytes).map mended

theorem isHigh_or_isLow_iff {p : Nat} : (isHigh p || isLow p) = true ↔ isSurrogate p := by
  simp only [isHigh, isLow, isSurrogate, Bool.or_eq_true, Bool.and_eq_true, decide_eq_true_eq]
  omega

theorem mendedLone_not_surrogate (p : Nat) : ¬ isSurrogate (mendedLone p) := by
  unfold mendedLone
  split_ifs with hp
  · decide
  · exact hp

theorem joined_bounds {p q : Nat} (h : (isHigh p && isLow q) = true) :
    0x10000 ≤ joined p q ∧ joined p q < 0x110000 := by
  simp only [isHigh, isLow, Bool.and_eq_true, decide_eq_true_eq] at h
  unfold joined
  omega

/-- No surrogate is left. -/
theorem not_surrogate_of_mem_mended {ps : List Nat} {n : Nat} (hn : n ∈ mended ps) :
    ¬ isSurrogate n := by
  induction ps using mended.induct with
  | case1 => cases hn
  | case2 p =>
    rw [mended, List.mem_singleton] at hn
    subst hn
    exact mendedLone_not_surrogate p
  | case3 p q rest hpair ih =>
    rw [mended, if_pos hpair] at hn
    rcases List.mem_cons.mp hn with hn | hn
    · have hbounds := joined_bounds hpair
      unfold isSurrogate
      omega
    · exact ih hn
  | case4 p q rest hpair ih =>
    rw [mended, if_neg hpair] at hn
    rcases List.mem_cons.mp hn with hn | hn
    · rw [hn]
      exact mendedLone_not_surrogate p
    · exact ih hn

example : numbers? [0xED, 0xA0, 0x80] = some [0xFFFD] := by decide

/-! ## 2. Numbers and characters -/

theorem toNat_mendLone {p : Nat} (h : p < 0x110000) : (mendLone p).toNat = mendedLone p := by
  unfold mendLone mendedLone
  by_cases hp : isSurrogate p
  · rw [if_pos (isHigh_or_isLow_iff.mpr hp), if_pos hp]
    rfl
  · rw [if_neg (mt isHigh_or_isLow_iff.mp hp), if_neg hp]
    unfold isSurrogate at hp
    refine Text.toNat_ofNat_of_isValidChar ?_
    unfold Nat.isValidChar
    omega

theorem toNat_joinPair {p q : Nat} (h : (isHigh p && isLow q) = true) :
    (joinPair p q).toNat = joined p q := by
  have hbounds := joined_bounds h
  have hvalid : (joined p q).isValidChar := .inr (by omega)
  exact Text.toNat_ofNat_of_isValidChar hvalid

/-- Mending gives the characters of the mended numbers. -/
theorem map_toNat_mend {ps : List Nat} (h : ∀ p ∈ ps, p < 0x110000) :
    (mend ps).map Char.toNat = mended ps := by
  induction ps using mended.induct with
  | case1 => rfl
  | case2 p => rw [mend, mended, List.map_singleton, toNat_mendLone (h p List.mem_cons_self)]
  | case3 p q rest hpair ih =>
    have hrest : ∀ p ∈ rest, p < 0x110000 := fun p hp =>
      h p (List.mem_cons_of_mem _ (List.mem_cons_of_mem _ hp))
    rw [mend, mended, if_pos hpair, if_pos hpair, List.map_cons, toNat_joinPair hpair, ih hrest]
  | case4 p q rest hpair ih =>
    rw [mend, mended, if_neg hpair, if_neg hpair, List.map_cons,
      toNat_mendLone (h p List.mem_cons_self), ih fun p hp => h p (List.mem_cons_of_mem _ hp)]

/-! ## 3. Bytes -/

theorem payload_lt (b : UInt8) : payload b < 0x40 := Nat.mod_lt _ (by decide)

/-- Four bytes spell a number of the code space. -/
theorem four_lt {a b c d : UInt8}
    (h : (0xF0 ≤ a && a ≤ 0xF4 && secondOfFour a b && isContinuation c && isContinuation d)
      = true) :
    a.toNat % 0x08 * 0x40000 + payload b * 0x1000 + payload c * 0x40 + payload d < 0x110000 := by
  have hc := payload_lt c
  have hd := payload_lt d
  simp only [secondOfFour, isContinuation, Bool.and_eq_true, Bool.or_eq_true, decide_eq_true_eq,
    bne_iff_ne, ne_eq, UInt8.le_iff_toNat_le, ← UInt8.toNat_inj] at h
  obtain ⟨⟨⟨⟨ha, ha'⟩, ⟨⟨hb, -⟩, -⟩, hb'⟩, -⟩, -⟩ := h
  change 240 ≤ a.toNat at ha
  change a.toNat ≤ 244 at ha'
  change 128 ≤ b.toNat at hb
  change ¬ a.toNat = 244 ∨ b.toNat ≤ 143 at hb'
  unfold payload at hc hd ⊢
  omega

/-- Bytes spell numbers of the code space. -/
theorem lt_of_points? {bytes : List UInt8} {ps : List Nat} (h : points? bytes = some ps) :
    ∀ p ∈ ps, p < 0x110000 := by
  have hcons : ∀ {n : Nat} {found : Option (List Nat)} {ps : List Nat}, n < 0x110000 →
      (∀ {ps}, found = some ps → ∀ p ∈ ps, p < 0x110000) → found.map (n :: ·) = some ps →
        ∀ p ∈ ps, p < 0x110000 := by
    intro n found ps hn hfound hps
    obtain ⟨rest, hrest, rfl⟩ := Option.map_eq_some_iff.mp hps
    exact List.forall_mem_cons.mpr ⟨hn, hfound hrest⟩
  fun_induction points? bytes generalizing ps with
  | case1 =>
    cases h
    exact nofun
  | case2 a rest ha ih => exact hcons (Nat.lt_trans a.toNat_lt (by decide)) ih h
  | case3 | case6 | case8 | case10 => cases h
  | case4 a ha b rest hzero ih => exact hcons (by decide) ih h
  | case5 a ha b rest hzero htwo ih =>
    have hb := payload_lt b
    exact hcons (by omega) ih h
  | case7 a ha b hzero htwo c rest hthree ih =>
    have hb := payload_lt b
    have hc := payload_lt c
    exact hcons (by omega) ih h
  | case9 a ha b hzero htwo c hthree d rest hfour ih => exact hcons (four_lt hfour) ih h

/-- The text that bytes spell has the numbers that they spell. -/
theorem numbers?_of_decode? {bytes : List UInt8} {s : String} (h : decode? bytes = some s) :
    numbers? bytes = some (s.toList.map Char.toNat) := by
  obtain ⟨ps, hps, rfl⟩ := Option.map_eq_some_iff.mp h
  rw [numbers?, hps, Option.map_some, String.toList_ofList, map_toNat_mend (lt_of_points? hps)]

end ApiSurface.ModifiedUtf8
