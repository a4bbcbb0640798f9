/-
ApiSurface.Proofs.Number.Grid — decimals near a fraction.

`magnitude` is the exponent of the first digit, whether the fraction is above or below
one (`magnitude_spec`), so the grid of `n` digits has steps of
`10 ^ (magnitude - (n - 1))`, and `rounded` is a grid point at most half a step away
(`rounded_spec`). Nothing later needs to know how the grid point was found.
-/
import ApiSurface.Number.Decimal
import ApiSurface.Proofs.Number.Nearest

namespace ApiSurface.Number

/-! ## 1. Counting digits -/

theorem length_digits_le_iff {n k : Nat} (hk : 0 < k) : (digits n).length ≤ k ↔ n < 10 ^ k :=
  Nat.length_toDigits_le_iff (by decide) hk

theorem length_digits_pos (n : Nat) : 0 < (digits n).length :=
  Nat.length_toDigits_pos

theorem lt_pow_length_digits (n : Nat) : n < 10 ^ (digits n).length :=
  (length_digits_le_iff (length_digits_pos n)).mp le_rfl

theorem pow_length_digits_le {n : Nat} (hn : 0 < n) : 10 ^ ((digits n).length - 1) ≤ n := by
  rcases Nat.eq_zero_or_pos ((digits n).length - 1) with hzero | hpos
  · rw [hzero]
    exact hn
  · by_contra hlt
    have := (length_digits_le_iff hpos).mpr (not_le.mp hlt)
    omega

/-- A positive number of `j + 1` digits lies between two powers of ten. -/
theorem exists_length_digits {n : Nat} (hn : 0 < n) :
    ∃ j, (digits n).length = j + 1 ∧ 10 ^ j ≤ n ∧ n < 10 ^ (j + 1) := by
  refine ⟨(digits n).length - 1, ?_, pow_length_digits_le hn, ?_⟩
  · have := length_digits_pos n
    omega
  · rw [Nat.sub_add_cancel (length_digits_pos n)]
    exact lt_pow_length_digits n

namespace Decimal

/-! ## 2. Values -/

/-- The number of a decimal. -/
def value (d : Decimal) : ℚ := d.coeff * 10 ^ d.exponent

theorem value_nonneg (d : Decimal) : 0 ≤ d.value := by
  rw [value]
  positivity

/-- The digits and the exponent of a decimal bound its value from above. -/
theorem value_lt_pow (d : Decimal) : d.value < 10 ^ ((digits d.coeff).length + d.exponent) := by
  have hcoeff : (d.coeff : ℚ) < 10 ^ (digits d.coeff).length := by
    exact_mod_cast lt_pow_length_digits d.coeff
  rw [value, zpow_add₀ (by norm_num), zpow_natCast]
  gcongr

/-- The digits and the exponent of a decimal bound its value from below. -/
theorem pow_le_value {d : Decimal} (hd : 0 < d.coeff) :
    10 ^ ((digits d.coeff).length + d.exponent - 1) ≤ d.value := by
  obtain ⟨j, hlen, hlow, -⟩ := exists_length_digits hd
  have hcoeff : (10 : ℚ) ^ j ≤ d.coeff := by exact_mod_cast hlow
  rw [value, hlen, show ((j + 1 : Nat) : Int) + d.exponent - 1 = j + d.exponent by omega,
    zpow_add₀ (by norm_num), zpow_natCast]
  gcongr

theorem ratio_eq (d : Decimal) : 0 < d.ratio.2 ∧ (d.ratio.1 : ℚ) / d.ratio.2 = d.value := by
  obtain ⟨coeff, exponent⟩ := d
  unfold ratio value
  dsimp only
  split
  · rename_i he
    obtain ⟨k, rfl⟩ := Int.eq_ofNat_of_zero_le he
    simp
  · rename_i he
    obtain ⟨k, rfl⟩ : ∃ k : Nat, exponent = -k := ⟨(-exponent).toNat, by omega⟩
    refine ⟨Nat.pow_pos (by decide), ?_⟩
    simp [div_eq_mul_inv]

/-! ## 3. Magnitude -/

/-- From one on, the magnitude is found by the digits of the whole part. -/
theorem magnitude_of_le {num den : Nat} (hd : 0 < den) (hle : den ≤ num) :
    10 ^ magnitude num den ≤ (num : ℚ) / den ∧ (num : ℚ) / den < 10 ^ (magnitude num den + 1) := by
  have hd' : (0 : ℚ) < den := by exact_mod_cast hd
  obtain ⟨j, hlen, hlow, hup⟩ := exists_length_digits (Nat.div_pos hle hd)
  rw [Nat.le_div_iff_mul_le hd] at hlow
  rw [Nat.div_lt_iff_lt_mul hd] at hup
  have hmag : magnitude num den = j := by
    rw [magnitude, if_pos hle, hlen]
    omega
  rw [hmag, le_div_iff₀ hd', div_lt_iff₀ hd']
  exact ⟨by exact_mod_cast hlow, by exact_mod_cast hup⟩

/-- Below one, the magnitude is found by the digits of the greatest whole number below the
inverse. -/
theorem magnitude_of_lt {num den : Nat} (hn : 0 < num) (hlt : num < den) :
    10 ^ magnitude num den ≤ (num : ℚ) / den ∧ (num : ℚ) / den < 10 ^ (magnitude num den + 1) := by
  have hd' : (0 : ℚ) < den := by exact_mod_cast hn.trans hlt
  obtain ⟨t, ht⟩ : ∃ t, (den + num - 1) / num = t + 1 :=
    ⟨_, (Nat.sub_add_cancel ((Nat.le_div_iff_mul_le hn).mpr (by omega))).symm⟩
  have hmod := Nat.mod_lt (den + num - 1) hn
  have hsplit := Nat.div_add_mod (den + num - 1) num
  rw [ht, Nat.mul_add, Nat.mul_one] at hsplit
  have hpos : 0 < t := by
    rcases Nat.eq_zero_or_pos t with rfl | hpos
    · omega
    · exact hpos
  obtain ⟨j, hlen, hlow, hup⟩ := exists_length_digits hpos
  have hmag : magnitude num den = -((j : Int) + 1) := by
    rw [magnitude, if_neg (by omega), ht, Nat.add_sub_cancel, hlen]
    push_cast
    ring
  have hden : den ≤ num * 10 ^ (j + 1) := by
    calc den ≤ num * (t + 1) := by
          rw [Nat.mul_add]
          omega
      _ ≤ num * 10 ^ (j + 1) := Nat.mul_le_mul_left _ hup
  have hden' : num * 10 ^ j < den := by
    calc num * 10 ^ j ≤ num * t := Nat.mul_le_mul_left _ hlow
      _ < den := by omega
  rw [hmag, le_div_iff₀ hd', div_lt_iff₀ hd', show -((j : Int) + 1) + 1 = -j by ring, zpow_neg,
    zpow_neg, inv_mul_le_iff₀ (by positivity), lt_inv_mul_iff₀ (by positivity), mul_comm,
    mul_comm _ (num : ℚ)]
  exact ⟨by exact_mod_cast hden, by exact_mod_cast hden'⟩

/-- A fraction has the magnitude of its first digit. -/
theorem magnitude_spec {num den : Nat} (hn : 0 < num) (hd : 0 < den) :
    10 ^ magnitude num den ≤ (num : ℚ) / den ∧ (num : ℚ) / den < 10 ^ (magnitude num den + 1) := by
  rcases Nat.lt_or_ge num den with hlt | hle
  · exact magnitude_of_lt hn hlt
  · exact magnitude_of_le hd hle

/-! ## 4. Rounding to a grid -/

/-- A fraction on a grid is the quotient of two numbers in steps of the grid. -/
theorem below_eq (num : Nat) {den : Nat} (hd : 0 < den) (n : Nat) :
    ∃ a b : Nat, 0 < b ∧ (a : ℚ) / b = num / den / 10 ^ (magnitude num den - (n - 1 : Nat)) ∧
      below num den n = (⟨a / b, magnitude num den - (n - 1 : Nat)⟩, a % b, b) := by
  unfold below
  dsimp only
  generalize magnitude num den - (n - 1 : Nat) = e
  by_cases he : 0 ≤ e
  · obtain ⟨k, rfl⟩ := Int.eq_ofNat_of_zero_le he
    refine ⟨num, den * 10 ^ k, Nat.mul_pos hd (Nat.pow_pos (by decide)), ?_, ?_⟩
    · rw [div_div]
      simp
    · simp only [if_pos he, Int.toNat_natCast, Nat.pow_eq]
  · obtain ⟨k, rfl⟩ : ∃ k : Nat, e = -k := ⟨(-e).toNat, by omega⟩
    refine ⟨num * 10 ^ k, den, hd, ?_, ?_⟩
    · push_cast
      rw [zpow_neg, div_inv_eq_mul, zpow_natCast]
      ring
    · simp only [if_neg he, neg_neg, Int.toNat_natCast, Nat.pow_eq]

/-- The nearest grid point has the exponent of the grid, and is off by half a step at most. -/
theorem rounded_spec {num den : Nat} (hd : 0 < den) (n : Nat) :
    (rounded num den n).exponent = magnitude num den - (n - 1 : Nat) ∧
      |(rounded num den n).value - num / den| ≤ 10 ^ (rounded num den n).exponent / 2 := by
  obtain ⟨a, b, hb, hratio, hbelow⟩ := below_eq num hd n
  have hrounded : rounded num den n =
      ⟨Format.roundDiv a b, magnitude num den - (n - 1 : Nat)⟩ := by
    simp only [rounded, hbelow, Format.roundDiv, next]
    split_ifs <;> rfl
  rw [hrounded, value]
  dsimp only
  refine ⟨rfl, ?_⟩
  generalize magnitude num den - (n - 1 : Nat) = e at *
  have hstep : (0 : ℚ) < 10 ^ e := by positivity
  have hhalf := Format.abs_roundDiv_sub_le a hb
  have hx : (num : ℚ) / den = a / b * 10 ^ e := by
    rw [hratio, div_mul_cancel₀ _ hstep.ne']
  rw [hx, ← sub_mul, abs_mul, abs_of_pos hstep]
  linarith [mul_le_mul_of_nonneg_right hhalf hstep.le]

end Decimal

/-! ## 5. Grids at numbers of a format -/

open Decimal (rounded magnitude)

/-- A fraction that is the number of a positive finite pattern. -/
structure Format.Represents (f : Format) (p num den : Nat) : Prop where
  pos : 0 < p
  finite : p < f.infinity
  den_pos : 0 < den
  ratio : (num : ℚ) / den = f.value p

namespace Format.Represents

variable {f : Format} {p num den : Nat}

theorem value_pos (h : f.Represents p num den) : 0 < f.value p := by
  rw [← value_zero (f := f)]
  exact strictMono_value h.pos

theorem num_pos (h : f.Represents p num den) : 0 < num := by
  have hpos := h.value_pos
  rw [← h.ratio] at hpos
  rcases Nat.eq_zero_or_pos num with rfl | hnum
  · simp at hpos
  · exact hnum

theorem pow_magnitude_le (h : f.Represents p num den) :
    (10 : ℚ) ^ magnitude num den ≤ f.value p :=
  h.ratio ▸ (Decimal.magnitude_spec h.num_pos h.den_pos).1

theorem lt_pow_magnitude (h : f.Represents p num den) :
    f.value p < (10 : ℚ) ^ (magnitude num den + 1) :=
  h.ratio ▸ (Decimal.magnitude_spec h.num_pos h.den_pos).2

theorem exponent_rounded (h : f.Represents p num den) (n : Nat) :
    (rounded num den n).exponent = magnitude num den - (n - 1 : Nat) :=
  (Decimal.rounded_spec h.den_pos n).1

theorem abs_rounded_sub_le (h : f.Represents p num den) (n : Nat) :
    |(rounded num den n).value - f.value p| ≤ 10 ^ (rounded num den n).exponent / 2 :=
  h.ratio ▸ (Decimal.rounded_spec h.den_pos n).2

/-- A grid point is no less than half the number and no more than twice the number. -/
theorem rounded_mem (h : f.Represents p num den) (n : Nat) :
    f.value p / 2 ≤ (rounded num den n).value ∧
      (rounded num den n).value ≤ 2 * f.value p := by
  have hstep : (10 : ℚ) ^ (rounded num den n).exponent ≤ f.value p := by
    refine le_trans ?_ h.pow_magnitude_le
    rw [h.exponent_rounded]
    apply zpow_le_zpow_right₀
    · norm_num
    · omega
  obtain ⟨hlow, hhigh⟩ := abs_le.mp (h.abs_rounded_sub_le n)
  have := h.value_pos
  constructor <;> linarith

theorem coeff_rounded_pos (h : f.Represents p num den) (n : Nat) :
    0 < (rounded num den n).coeff := by
  have hlow := (h.rounded_mem n).1
  have hpos := h.value_pos
  refine Nat.pos_of_ne_zero fun hzero => ?_
  rw [Decimal.value, hzero, Nat.cast_zero, zero_mul] at hlow
  linarith

end Format.Represents

end ApiSurface.Number
