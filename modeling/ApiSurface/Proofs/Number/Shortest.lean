/-
ApiSurface.Proofs.Number.Shortest — the shortest decimal of a double.

Grids with more and more digits are tried until one of the two points around the number
reads back. Seventeen digits are enough for every double (`round_rounded_seventeen`), so what is
found reads back (`round_shortest`). And a decimal with fewer digits does not read back at all
(`length_significant_shortest_le`): it lies on one side of the number, and the grid point on
this side lies between the two, so that it would have been found before.
-/
import ApiSurface.Proofs.Number.Narrowing
import ApiSurface.Proofs.Number.Notation

namespace ApiSurface.Number

open Format (double)
open Decimal (magnitude below rounded onGrid readsBack shortest)

/-! ## 1. The points around a number -/

namespace Decimal

theorem value_next (d : Decimal) : d.next.value = d.value + 10 ^ d.exponent := by
  rw [value, value, next]
  push_cast
  ring

/-- The fraction lies between two neighbours of the grid. -/
theorem below_spec (num : Nat) {den : Nat} (hd : 0 < den) (n : Nat) :
    (below num den n).1.exponent = magnitude num den - (n - 1 : Nat) ∧
      (below num den n).1.value ≤ (num : ℚ) / den ∧
      (num : ℚ) / den < (below num den n).1.next.value := by
  obtain ⟨a, b, hb, hratio, hbelow⟩ := below_eq num hd n
  have hb' : (0 : ℚ) < b := by exact_mod_cast hb
  have hstep : (0 : ℚ) < 10 ^ (magnitude num den - (n - 1 : Nat)) := by positivity
  rw [eq_div_iff hstep.ne'] at hratio
  rw [hbelow, value_next, value, ← hratio]
  refine ⟨rfl, ?_, ?_⟩
  · have hle : ((a / b : Nat) : ℚ) ≤ a / b := by
      rw [le_div_iff₀ hb']
      exact_mod_cast Nat.div_mul_le_self a b
    exact mul_le_mul_of_nonneg_right hle hstep.le
  · have hlt : (a : ℚ) / b < (a / b : Nat) + 1 := by
      rw [div_lt_iff₀ hb']
      exact_mod_cast Nat.lt_mul_of_div_lt (Nat.lt_succ_self _) hb
    have hlt' := mul_lt_mul_of_pos_right hlt hstep
    linarith

/-- Rounding takes one of the two. -/
theorem rounded_eq_or (num den n : Nat) :
    rounded num den n = (below num den n).1 ∨ rounded num den n = (below num den n).1.next := by
  simp only [rounded]
  split_ifs
  · exact .inl rfl
  · exact .inr rfl
  · exact .inl rfl
  · exact .inr rfl

theorem readsBack_iff {p : Nat} {d : Decimal} :
    readsBack p d = true ↔ double.round d.value = p := by
  obtain ⟨hden, hratio⟩ := d.ratio_eq
  simp only [readsBack, Format.nearest_eq_round _ hden, hratio, beq_iff_eq]

/-- A grid succeeds with one of the two points, if that reads back. -/
theorem onGrid_eq_some {p num den n : Nat} {d : Decimal} (h : onGrid p num den n = some d) :
    (d = (below num den n).1 ∨ d = (below num den n).1.next) ∧ double.round d.value = p := by
  simp only [onGrid] at h
  split at h
  · next hlower hnext =>
    split_ifs at h
    all_goals cases h
    · exact ⟨.inl rfl, readsBack_iff.mp hlower⟩
    · exact ⟨.inr rfl, readsBack_iff.mp hnext⟩
    · exact ⟨.inl rfl, readsBack_iff.mp hlower⟩
    · exact ⟨.inr rfl, readsBack_iff.mp hnext⟩
  · next hlower _ =>
    cases h
    exact ⟨.inl rfl, readsBack_iff.mp hlower⟩
  · next _ hnext =>
    cases h
    exact ⟨.inr rfl, readsBack_iff.mp hnext⟩
  · cases h

/-- A grid fails only if neither point reads back. -/
theorem onGrid_eq_none {p num den n : Nat} (h : onGrid p num den n = none) {d : Decimal}
    (hd : d = (below num den n).1 ∨ d = (below num den n).1.next) : double.round d.value ≠ p := by
  simp only [onGrid] at h
  split at h
  · cases h
  · cases h
  · cases h
  · next hlower hnext =>
    obtain rfl | rfl := hd
    · exact mt readsBack_iff.mpr (Bool.eq_false_iff.mp hlower)
    · exact mt readsBack_iff.mpr (Bool.eq_false_iff.mp hnext)

end Decimal

/-! ## 2. Seventeen digits -/

variable {p num den : Nat}

theorem round_rounded_seventeen (h : double.Represents p num den) :
    double.round (rounded num den 17).value = p := by
  obtain ⟨q, rfl⟩ := Nat.exists_eq_add_of_lt h.pos
  rw [Nat.zero_add] at *
  refine Format.round_eq_succ_of_abs_sub_lt (Decimal.value_nonneg _) h.finite
    ((h.abs_rounded_sub_le 17).trans_lt ?_)
  have hmag := h.pow_magnitude_le
  have hc : (double.coefficient q : ℚ) + 1 ≤ 2 ^ 53 := by
    exact_mod_cast Format.coefficient_lt (f := double) q
  have hunit : (0 : ℚ) < 2 ^ double.unit q := by positivity
  have hvalue : double.value (q + 1) ≤ 2 ^ 53 * 2 ^ double.unit q := by
    calc double.value (q + 1) = (double.coefficient q + 1) * 2 ^ double.unit q := by
          rw [Format.value_succ, Format.value]
          ring
      _ ≤ 2 ^ 53 * 2 ^ double.unit q := by gcongr
  rw [h.exponent_rounded, zpow_sub₀ (by norm_num), zpow_sub_one₀ (by norm_num)]
  norm_num
  linarith

/-! ## 3. The first grid that succeeds -/

/-- The shortest decimal is a point of the first grid with a point that reads back. -/
theorem exists_shortest (h : double.Represents p num den) :
    ∃ n, 0 < n ∧ n ≤ 17 ∧ onGrid p num den n = some (shortest p num den) ∧
      ∀ m, 0 < m → m < n → onGrid p num den m = none := by
  cases hfind : (List.range' 1 17).findSome? (onGrid p num den) with
  | none =>
    have hnone := List.findSome?_eq_none_iff.mp hfind 17 (by decide)
    exact absurd (round_rounded_seventeen h)
      (Decimal.onGrid_eq_none hnone (Decimal.rounded_eq_or num den 17))
  | some d =>
    obtain ⟨front, n, back, hsplit, hd, hbefore⟩ := List.findSome?_eq_some_iff.mp hfind
    obtain ⟨k, hk, rfl, hback⟩ := List.range'_eq_append_iff.mp hsplit
    obtain ⟨rfl, hlt, -⟩ := List.range'_eq_cons_iff.mp hback.symm
    refine ⟨1 + k * 1, by omega, by omega, ?_, fun m hm hlt => ?_⟩
    · rw [shortest, hfind]
      exact hd
    · exact hbefore m (List.mem_range'_1.mpr (by omega))

/-- The shortest decimal reads back. -/
theorem round_shortest (h : double.Represents p num den) :
    double.round (shortest p num den).value = p := by
  obtain ⟨n, -, -, hgrid, -⟩ := exists_shortest h
  exact (Decimal.onGrid_eq_some hgrid).2

theorem coeff_pos_of_round {d : Decimal} (hp : 0 < p) (hd : double.round d.value = p) :
    0 < d.coeff := by
  refine Nat.pos_of_ne_zero fun hzero => ?_
  have hvalue : d.value = double.value 0 := by
    rw [Decimal.value, hzero, Format.value_zero, Nat.cast_zero, zero_mul]
  rw [hvalue, Format.round_value (Nat.zero_le _)] at hd
  omega

/-! ## 4. No decimal is shorter -/

/-- A multiple of a step of a grid does not lie between two neighbours of the grid. -/
theorem not_between_of_exponent_le {c d : Decimal} (he : c.exponent ≤ d.exponent) :
    d.value ≤ c.value ∨ c.next.value ≤ d.value := by
  obtain ⟨t, ht⟩ := Int.le.dest he
  have hstep : (0 : ℚ) < 10 ^ c.exponent := by positivity
  have hmultiple : d.value = (d.coeff * 10 ^ t : Nat) * 10 ^ c.exponent := by
    rw [Decimal.value, ← ht, zpow_add₀ (by norm_num), zpow_natCast]
    push_cast
    ring
  rw [hmultiple, Decimal.value_next, Decimal.value, ← add_one_mul]
  rcases Nat.lt_or_ge c.coeff (d.coeff * 10 ^ t) with habove | hbelow
  · refine .inr (mul_le_mul_of_nonneg_right ?_ hstep.le)
    exact_mod_cast habove
  · refine .inl (mul_le_mul_of_nonneg_right ?_ hstep.le)
    exact_mod_cast hbelow

/-- The point below a number has the magnitude of the number. -/
theorem pow_magnitude_le_below (h : double.Represents p num den) (n : Nat) :
    (10 : ℚ) ^ magnitude num den ≤ (below num den n).1.value := by
  obtain ⟨hexponent, -, hnext⟩ := Decimal.below_spec num h.den_pos n
  have hmag := h.pow_magnitude_le
  rw [← h.ratio] at hmag
  generalize (below num den n).1 = lower at *
  have hstep : (0 : ℚ) < 10 ^ lower.exponent := by positivity
  -- that power of ten is a point of the grid itself
  have hpow : (10 : ℚ) ^ magnitude num den = (10 ^ (n - 1) : Nat) * 10 ^ lower.exponent := by
    push_cast
    rw [hexponent, ← zpow_natCast, ← zpow_add₀ (by norm_num)]
    congr 1
    ring
  have hlt : ((10 ^ (n - 1) : Nat) : ℚ) * 10 ^ lower.exponent
      < (lower.coeff + 1) * 10 ^ lower.exponent := by
    rw [← hpow, add_one_mul]
    exact hmag.trans_lt (hnext.trans_eq (Decimal.value_next lower))
  have hcoeff : 10 ^ (n - 1) ≤ lower.coeff :=
    Nat.lt_succ_iff.mp (by exact_mod_cast lt_of_mul_lt_mul_right hlt hstep.le)
  rw [hpow, Decimal.value]
  gcongr

/-- No decimal lies between two neighbours on the grid of as many digits as it has. -/
theorem not_between (h : double.Represents p num den) (d : Decimal) :
    d.value ≤ (below num den (digits d.coeff).length).1.value ∨
      (below num den (digits d.coeff).length).1.next.value ≤ d.value := by
  have hlen := length_digits_pos d.coeff
  have hexponent := (Decimal.below_spec num h.den_pos (digits d.coeff).length).1
  rcases le_or_gt (below num den (digits d.coeff).length).1.exponent d.exponent with hge | hlt
  · exact not_between_of_exponent_le hge
  · -- below the first number of this magnitude, which is on the grid
    left
    calc d.value ≤ 10 ^ ((digits d.coeff).length + d.exponent) := d.value_lt_pow.le
      _ ≤ 10 ^ magnitude num den := zpow_le_zpow_right₀ (by norm_num) (by omega)
      _ ≤ (below num den (digits d.coeff).length).1.value := pow_magnitude_le_below h _

/-- A grid fails only if no decimal of as many digits reads back. -/
theorem round_ne_of_onGrid_eq_none (h : double.Represents p num den) {d : Decimal}
    (hnone : onGrid p num den (digits d.coeff).length = none) :
    double.round d.value ≠ p := by
  intro hback
  obtain ⟨-, hlower, hnext⟩ := Decimal.below_spec num h.den_pos (digits d.coeff).length
  have hself : double.round ((num : ℚ) / den) = p := by
    rw [h.ratio]
    exact Format.round_value h.finite.le
  rcases not_between h d with hle | hge
  · refine Decimal.onGrid_eq_none hnone (.inl rfl) (le_antisymm ?_ ?_)
    · exact (Format.round_mono (Decimal.value_nonneg _) hlower).trans_eq hself
    · exact hback.symm.trans_le (Format.round_mono (Decimal.value_nonneg _) hle)
  · have hpos : (0 : ℚ) ≤ (num : ℚ) / den := by positivity
    refine Decimal.onGrid_eq_none hnone (.inr rfl) (le_antisymm ?_ ?_)
    · exact (Format.round_mono (hpos.trans hnext.le) hge).trans_eq hback
    · exact hself.symm.trans_le (Format.round_mono hpos hnext.le)

/-- The points of a grid have coefficients up to the power of ten behind it. -/
theorem coeff_le_pow (h : double.Represents p num den) {n : Nat} (hn : 0 < n) {d : Decimal}
    (hd : d = (below num den n).1 ∨ d = (below num den n).1.next) : d.coeff ≤ 10 ^ n := by
  obtain ⟨hexponent, hle, -⟩ := Decimal.below_spec num h.den_pos n
  have hstep : (0 : ℚ) < 10 ^ (below num den n).1.exponent := by positivity
  have hlt : ((below num den n).1.coeff : ℚ) * 10 ^ (below num den n).1.exponent <
      10 ^ n * 10 ^ (below num den n).1.exponent := by
    calc ((below num den n).1.coeff : ℚ) * 10 ^ (below num den n).1.exponent
        ≤ (num : ℚ) / den := hle
      _ < 10 ^ (magnitude num den + 1) := h.ratio ▸ h.lt_pow_magnitude
      _ = 10 ^ n * 10 ^ (below num den n).1.exponent := by
        rw [hexponent, ← zpow_natCast, ← zpow_add₀ (by norm_num)]
        congr 1
        omega
  have hlower : (below num den n).1.coeff < 10 ^ n := by
    exact_mod_cast lt_of_mul_lt_mul_right hlt hstep.le
  obtain rfl | rfl := hd
  · exact hlower.le
  · exact hlower

/-- A power of ten has one significant digit. -/
theorem stripZeros_digits_pow (n : Nat) : Decimal.stripZeros (digits (10 ^ n)) = ['1'] := by
  induction n with
  | zero => rfl
  | succ n ih =>
    have hdigits : digits (10 ^ (n + 1)) = digits (10 ^ n) ++ ['0'] := by
      have happend := Nat.toDigits_append_toDigits (b := 10) (d := 0) (by decide)
        (Nat.pow_pos (a := 10) (n := n) (by decide)) (by decide)
      rw [Nat.add_zero, Nat.mul_comm, ← Nat.pow_succ] at happend
      exact happend.symm
    rw [hdigits, ← ih]
    simp [Decimal.stripZeros]

theorem length_significant_le {d : Decimal} {n : Nat} (hn : 0 < n) (h : d.coeff ≤ 10 ^ n) :
    d.significant.length ≤ n := by
  rcases Nat.lt_or_eq_of_le h with hlt | heq
  · obtain ⟨k, hk⟩ := stripZeros_append (digits d.coeff)
    have hlen := congrArg List.length hk
    have hdigits := (length_digits_le_iff hn).mpr hlt
    rw [List.length_append] at hlen
    exact (Nat.le_add_right _ _).trans (hlen.symm.trans_le hdigits)
  · rw [Decimal.significant, heq, stripZeros_digits_pow]
    exact hn

/-- A decimal that reads back has no fewer digits than the shortest one. -/
theorem length_significant_shortest_le (h : double.Represents p num den) {d : Decimal}
    (hd : double.round d.value = p) :
    (shortest p num den).significant.length ≤ (digits d.coeff).length := by
  obtain ⟨n, hn, -, hgrid, hbefore⟩ := exists_shortest h
  have hcoeff := coeff_le_pow h hn (Decimal.onGrid_eq_some hgrid).1
  refine (length_significant_le hn hcoeff).trans (not_lt.mp fun hlt => ?_)
  exact round_ne_of_onGrid_eq_none h (hbefore _ (length_digits_pos _) hlt) hd

end ApiSurface.Number
