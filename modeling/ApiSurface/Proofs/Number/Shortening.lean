/-
ApiSurface.Proofs.Number.Shortening — single-precision numbers in few digits.

A positive single-precision number is rounded to a grid of one to nine digits, and the
result is brought back by way of double precision. Nine digits always bring the number
back (`narrowed_nine`). Where fewer digits do, the decimal is also nearest to the number
directly, but for the near miss (`round_eq_of_narrowed`). A decimal overflows only on
the way up from the greatest numbers: those above 34025 * 10 ^ 34 overflow at four digits
before any grid brings them back (`narrowed_four`), and no others overflow
(`narrowed_lt_infinity`).
-/
import ApiSurface.Number.Real
import ApiSurface.Proofs.Number.Narrowing
import ApiSurface.Proofs.Number.Neighbours

namespace ApiSurface.Number

open Format (single narrowed)
open Decimal (rounded magnitude)

/-- A fraction that is the number of a positive finite single-precision pattern. -/
structure IsSingle (p num den : Nat) : Prop where
  pos : 0 < p
  finite : p < single.infinity
  den_pos : 0 < den
  ratio : (num : ℚ) / den = single.value p

namespace IsSingle

variable {p num den : Nat}

theorem represents (h : IsSingle p num den) : single.Represents p num den :=
  ⟨h.pos, h.finite, h.den_pos, h.ratio⟩

theorem coeff_rounded_pos (h : IsSingle p num den) (n : Nat) : 0 < (rounded num den n).coeff :=
  h.represents.coeff_rounded_pos n

/-! ## 1. Nine digits -/

/-- Nine digits bring every number back. -/
theorem narrowed_nine (h : IsSingle p num den) : narrowed (rounded num den 9).value = p := by
  refine Format.narrowed_eq_of_abs_sub_le (Decimal.value_nonneg _) h.pos h.finite ?_
  refine (h.represents.abs_rounded_sub_le 9).trans ?_
  have hc := Format.coefficient_lt (f := single) p
  have hc' : (single.coefficient p : ℚ) ≤ 2 ^ 24 := by exact_mod_cast hc.le
  have hmag := h.represents.pow_magnitude_le
  have hunit : (0 : ℚ) < 2 ^ (single.unit p - 3) := by positivity
  rw [h.represents.exponent_rounded, zpow_sub₀ (by norm_num)]
  calc (10 : ℚ) ^ magnitude num den / 10 ^ ((9 - 1 : Nat) : Int) / 2
      ≤ single.value p / 10 ^ ((9 - 1 : Nat) : Int) / 2 := by gcongr
    _ ≤ 2 ^ 24 * 2 ^ single.unit p / 10 ^ ((9 - 1 : Nat) : Int) / 2 := by
      rw [Format.value]
      gcongr
    _ = 2 ^ 24 * 8 / 10 ^ ((9 - 1 : Nat) : Int) / 2 * 2 ^ (single.unit p - 3) := by
      rw [zpow_sub₀ (by norm_num)]
      norm_num
      ring
    _ ≤ 2 ^ (single.unit p - 3) := by
      refine mul_le_of_le_one_left hunit.le ?_
      norm_num

/-! ## 2. Fewer digits -/

/-- The pattern of `7.038531308148791e-26`, whose seven digits lie a near miss from the
midpoint below. -/
def nearMiss : Nat := 0x15ae43fe

/-- A grid point that brings the number back is nearest to it directly, too. -/
theorem round_eq_of_narrowed (h : IsSingle p num den) (hmiss : p ≠ nearMiss) {n : Nat}
    (hback : narrowed (rounded num den n).value = p) :
    single.round (rounded num den n).value = p := by
  rcases Format.round_eq_or_of_narrowed_eq (Decimal.value_nonneg _) h.pos h.finite hback with
    heq | ⟨q, hq, heven, hpq, hne, hfar, hnear⟩
  · exact heq
  exfalso
  obtain ⟨hc, he, he'⟩ := Format.single_bounds hq
  have hstep : (2 : ℚ) ^ (single.unit q - 1 + 1) < 10 ^ (rounded num den n).exponent := by
    have := h.represents.abs_rounded_sub_le n
    rw [zpow_add_one₀ (by norm_num)]
    linarith
  rw [Format.midpoint, Decimal.value] at hne hnear
  rcases eq_or_of_near (m := 2 * single.coefficient q + 1) (by omega) (by omega) (by omega)
    (by omega) hstep (by exact_mod_cast hnear) with hexact | ⟨hunit, hcoefficient⟩
  · exact hne (by exact_mod_cast hexact)
  · have hsum := Format.binade_mul_add_coefficient (f := single) q
    rw [Format.unit, show single.leastExponent = -149 from rfl] at hunit
    rw [show single.binade q = 42 by omega, show single.coefficient q = 11420669 by omega,
      show single.fractionBits = 23 from rfl] at hsum
    rw [Nat.even_iff] at heven
    exact hmiss (by rw [nearMiss]; omega)

/-! ## 3. Overflow -/

/-- The greatest finite pattern. -/
def greatest : Nat := 0x7f7fffff

theorem value_greatest : single.value greatest = (2 ^ 24 - 1) * 2 ^ 104 := by
  rw [Format.value, show single.coefficient greatest = 2 ^ 24 - 1 from rfl,
    show single.unit greatest = 104 from rfl]
  norm_num

theorem narrowed_value {q : Nat} (hpos : 0 < q) (hq : q < single.infinity) :
    narrowed (single.value q) = q := by
  refine Format.narrowed_eq_of_abs_sub_le (Format.value_nonneg q) hpos hq ?_
  rw [sub_self, abs_zero]
  positivity

/-- What is no greater than the greatest number does not overflow. -/
theorem narrowed_lt_of_le {x : ℚ} (hx : 0 ≤ x) (hle : x ≤ (2 ^ 24 - 1) * 2 ^ 104) :
    narrowed x < single.infinity := by
  have hlt : greatest < single.infinity := by decide
  rw [← value_greatest] at hle
  have := Format.narrowed_mono hx hle
  rw [narrowed_value (by decide) hlt] at this
  omega

/-- What reaches the midpoint above the greatest number overflows. -/
theorem narrowed_eq_infinity {x : ℚ} (hle : single.midpoint greatest ≤ x) :
    narrowed x = single.infinity := by
  have hlt : greatest < single.infinity := by decide
  have hmid := Format.viaDouble_mono
    ((Format.value_nonneg greatest).trans (Format.value_lt_midpoint greatest).le) hle
  rw [(Format.viaDouble_midpoint hlt).2] at hmid
  refine le_antisymm (Format.round_le_infinity single _) (not_lt.mp fun hcon => ?_)
  have hgreatest : single.infinity = greatest + 1 := by decide
  rw [narrowed] at hcon
  rcases (Format.round_le_iff (Format.viaDouble_nonneg x) hlt).mp (by omega) with h | ⟨-, h⟩
  · exact absurd hmid (not_le.mpr h)
  · exact absurd h (by decide)

theorem le_value (h : IsSingle p num den) : 2 ^ (-149 : Int) ≤ single.value p := by
  have hle : single.value 1 ≤ single.value p := Format.strictMono_value.monotone h.pos
  rwa [Format.value, show single.coefficient 1 = 1 from rfl,
    show single.unit 1 = -149 from rfl, Nat.cast_one, one_mul] at hle

theorem value_le (h : IsSingle p num den) : single.value p ≤ (2 ^ 24 - 1) * 2 ^ 104 := by
  rw [← value_greatest]
  refine Format.strictMono_value.monotone ?_
  have := h.finite
  rw [show single.infinity = greatest + 1 from rfl] at this
  omega

theorem magnitude_le (h : IsSingle p num den) : magnitude num den ≤ 38 := by
  have hlt : (10 : ℚ) ^ magnitude num den < 10 ^ (39 : Int) := by
    refine lt_of_le_of_lt (h.represents.pow_magnitude_le.trans h.value_le) ?_
    norm_num
  have := (zpow_lt_zpow_iff_right₀ (by norm_num)).mp hlt
  omega

/-- No number of single precision lies on the bound itself. -/
theorem value_ne (h : IsSingle p num den) : single.value p ≠ 34025 * 10 ^ 34 := by
  intro heq
  have hnearest := Format.nearest_eq_round (f := single) (34025 * 10 ^ 34) Nat.one_pos
  rw [show single.nearest (34025 * 10 ^ 34) 1 = 0x7f7ff9c4 by decide +kernel] at hnearest
  norm_num at hnearest heq
  rw [← heq, Format.round_value h.finite.le] at hnearest
  rw [← hnearest, Format.value, show single.coefficient 0x7f7ff9c4 = 16775620 from rfl,
    show single.unit 0x7f7ff9c4 = 104 from rfl] at heq
  norm_num at heq

/-- No number up to the bound overflows on any grid. -/
theorem narrowed_lt_infinity (h : IsSingle p num den) (hle : single.value p ≤ 34025 * 10 ^ 34)
    (n : Nat) : narrowed (rounded num den n).value < single.infinity := by
  refine narrowed_lt_of_le (Decimal.value_nonneg _) ?_
  have hlt := lt_of_le_of_ne hle h.value_ne
  have hexponent : (rounded num den n).exponent ≤ 38 := by
    have := h.magnitude_le
    rw [h.represents.exponent_rounded]
    omega
  have hclose := (abs_le.mp (h.represents.abs_rounded_sub_le n)).2
  generalize rounded num den n = d at *
  obtain ⟨c, e⟩ := d
  rw [Decimal.value] at hclose ⊢
  dsimp only at *
  -- On the coarse grids the next point above the bound has to be excluded, too.
  have hcoarse (b : Nat) (hb : 34025 * 10 ^ 34 + (10 : ℚ) ^ e / 2 ≤ (b + 1) * 10 ^ e)
      (hmax : (b : ℚ) * 10 ^ e ≤ (2 ^ 24 - 1) * 2 ^ 104) :
      (c : ℚ) * 10 ^ e ≤ (2 ^ 24 - 1) * 2 ^ 104 := by
    have hstep : (0 : ℚ) < 10 ^ e := by positivity
    have hc : (c : ℚ) < b + 1 := lt_of_mul_lt_mul_right (by linarith) hstep.le
    have hc' : (c : ℚ) ≤ b := by exact_mod_cast Nat.lt_succ_iff.mp (by exact_mod_cast hc)
    exact (mul_le_mul_of_nonneg_right hc' hstep.le).trans hmax
  rcases le_or_gt e 34 with hfine | hgt
  · have : (10 : ℚ) ^ e ≤ 10 ^ (34 : Int) := zpow_le_zpow_right₀ (by norm_num) hfine
    norm_num at *
    linarith
  · obtain rfl | rfl | rfl | rfl : e = 35 ∨ e = 36 ∨ e = 37 ∨ e = 38 := by omega
    · exact hcoarse 3402 (by norm_num) (by norm_num)
    · exact hcoarse 340 (by norm_num) (by norm_num)
    · exact hcoarse 34 (by norm_num) (by norm_num)
    · exact hcoarse 3 (by norm_num) (by norm_num)

/-! ## 4. The greatest numbers -/

theorem magnitude_eq (h : IsSingle p num den) (hlt : 34025 * 10 ^ 34 < single.value p) :
    magnitude num den = 38 := by
  have hlow : (10 : ℚ) ^ (38 : Int) < 10 ^ (magnitude num den + 1) := by
    refine lt_trans ?_ (hlt.trans h.represents.lt_pow_magnitude)
    norm_num
  have := (zpow_lt_zpow_iff_right₀ (by norm_num)).mp hlow
  have := h.magnitude_le
  omega

/-- A grid point less than half a step away is the nearest. -/
theorem rounded_eq (h : IsSingle p num den) {n c : Nat} {e : Int}
    (he : magnitude num den - (n - 1 : Nat) = e)
    (hlow : ((c : ℚ) - 1 / 2) * 10 ^ e < single.value p)
    (hhigh : single.value p < ((c : ℚ) + 1 / 2) * 10 ^ e) : rounded num den n = ⟨c, e⟩ := by
  have hexponent := h.represents.exponent_rounded n
  have hclose := h.represents.abs_rounded_sub_le n
  rw [he] at hexponent
  generalize rounded num den n = d at *
  obtain ⟨c', e'⟩ := d
  rw [Decimal.value] at hclose
  dsimp only at *
  subst hexponent
  obtain ⟨hl, hh⟩ := abs_le.mp hclose
  have hstep : (0 : ℚ) < 10 ^ e' := by positivity
  have hc : (c' : ℚ) < c + 1 := lt_of_mul_lt_mul_right (by linarith) hstep.le
  have hc' : (c : ℚ) < c' + 1 := lt_of_mul_lt_mul_right (by linarith) hstep.le
  have : c' < c + 1 := by exact_mod_cast hc
  have : c < c' + 1 := by exact_mod_cast hc'
  rw [show c' = c by omega]

/-- The grids of the greatest numbers: three that end below them and one that overflows. -/
theorem rounded_greatest (h : IsSingle p num den) (hlt : 34025 * 10 ^ 34 < single.value p) :
    rounded num den 1 = ⟨3, 38⟩ ∧ rounded num den 2 = ⟨34, 37⟩ ∧
      rounded num den 3 = ⟨340, 36⟩ ∧ rounded num den 4 = ⟨3403, 35⟩ := by
  have hmag := h.magnitude_eq hlt
  have hle := h.value_le
  norm_num at hlt hle
  refine ⟨h.rounded_eq ?_ ?_ ?_, h.rounded_eq ?_ ?_ ?_, h.rounded_eq ?_ ?_ ?_,
    h.rounded_eq ?_ ?_ ?_⟩
  all_goals first | (rw [hmag]; rfl) | (norm_num; linarith)

/-- The grids of up to three digits end too far below the greatest numbers. -/
theorem narrowed_lt_self (hlt : 34025 * 10 ^ 34 < single.value p) {x : ℚ} (hx : 0 ≤ x)
    (hle : x ≤ 34 * 10 ^ 37) : narrowed x < p := by
  have hbetween : single.value 0x7f7fd000 = 16764928 * 2 ^ 104 := by
    rw [Format.value, show single.coefficient 0x7f7fd000 = 16764928 from rfl,
      show single.unit 0x7f7fd000 = 104 from rfl]
    norm_num
  have hx' := Format.narrowed_mono (y := single.value 0x7f7fd000) hx
    (hle.trans (by rw [hbetween]; norm_num))
  rw [narrowed_value (by decide) (by decide)] at hx'
  refine lt_of_le_of_lt hx' (Format.strictMono_value.lt_iff_lt.mp (lt_trans ?_ hlt))
  rw [hbetween]
  norm_num

/-- The grid of four digits goes on past the greatest number. -/
theorem narrowed_four : narrowed (Decimal.value ⟨3403, 35⟩) = single.infinity := by
  refine narrowed_eq_infinity ?_
  rw [Format.midpoint, show single.coefficient greatest = 2 ^ 24 - 1 from rfl,
    show single.unit greatest = 104 from rfl, Decimal.value]
  norm_num

/-! ## 5. Reading grid points -/

/-- Reading a decimal that is neither out of range nor near to it just rounds it. -/
theorem ofDecimal_eq {d : Decimal} (hd : 0 < d.coeff) (hlow : 10 ^ (-150 : Int) < d.value)
    (hhigh : d.value < 10 ^ (130 : Int)) :
    Double.ofDecimal false d.coeff d.exponent
      = Double.ofPattern (Format.double.round d.value) := by
  have hsize : ¬ (digits d.coeff).length + d.exponent < -400 := by
    have := (zpow_lt_zpow_iff_right₀ (by norm_num)).mp (hlow.trans d.value_lt_pow)
    omega
  have hsize' : ¬ 400 < (digits d.coeff).length + d.exponent := by
    have := (zpow_lt_zpow_iff_right₀ (by norm_num)).mp ((Decimal.pow_le_value hd).trans_lt hhigh)
    omega
  obtain ⟨hden, hratio⟩ := d.ratio_eq
  have hcond : ¬ (decide (d.coeff = 0) ||
      decide ((digits d.coeff).length + d.exponent < -400)) = true := by
    simpa using ⟨hd.ne', not_lt.mp hsize⟩
  simp only [Double.ofDecimal]
  rw [if_neg hcond, if_neg hsize', Double.nearest, Format.nearest_eq_round _ hden, hratio,
    Format.withSign_false]

/-- A grid point is well inside the range of doubles, so reading it just rounds it. -/
theorem ofDecimal_rounded (h : IsSingle p num den) (n : Nat) :
    Double.ofDecimal false (rounded num den n).coeff (rounded num den n).exponent
        = Double.ofPattern (Format.double.round (rounded num den n).value) ∧
      Format.double.round (rounded num den n).value < Format.double.infinity := by
  obtain ⟨hlow, hhigh⟩ := h.represents.rounded_mem n
  have hlow' := h.le_value
  have hhigh' := h.value_le
  have hpos := h.coeff_rounded_pos n
  generalize rounded num den n = d at *
  have hle : d.value ≤ (1 : Nat) * 2 ^ (129 : Int) := by
    norm_num at *
    linarith
  refine ⟨ofDecimal_eq hpos ?_ ?_, lt_of_le_of_lt (Format.round_mono d.value_nonneg hle)
    (Format.double_exact (by norm_num) (by norm_num) (by norm_num)).1⟩
  · norm_num at *
    linarith
  · norm_num at *
    linarith

end IsSingle

end ApiSurface.Number
