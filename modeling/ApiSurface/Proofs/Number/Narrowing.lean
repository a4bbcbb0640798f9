/-
ApiSurface.Proofs.Number.Narrowing — single precision by way of double precision.

A number can come to single precision in two ways: rounded at once, or rounded to a
double first and then narrowed (`narrowed`). Widening a single-precision number loses
nothing, so both ways keep the numbers of single precision. Of other numbers the
second way can lose the tie rule: where the double is a midpoint of two neighbours and
the number is not, the second way takes the even neighbour and the first the nearer
one. `round_eq_or_of_narrowed_eq` says that this is the only difference, and how near to the
midpoint such a number must be.
-/
import ApiSurface.Proofs.Number.Nearest

namespace ApiSurface.Number

/-! ## 1. What patterns stand for -/

namespace Format

instance : NeZero single.fractionBits := ⟨by decide⟩

instance : NeZero double.fractionBits := ⟨by decide⟩

variable {f : Format}

theorem infinity_lt_signBit (f : Format) : f.infinity < f.signBit := by
  have hpos : 0 < f.exponents := Nat.two_pow_pos _
  exact Nat.mul_lt_mul_of_pos_right (by omega) (Nat.two_pow_pos _)

@[simp] theorem withSign_false (p : Nat) : f.withSign false p = p :=
  if_neg Bool.false_ne_true

theorem withSign_mod (negative : Bool) (p : Nat) :
    f.withSign negative p % 2 ^ f.fractionBits = p % 2 ^ f.fractionBits := by
  cases negative
  · rfl
  · exact Nat.mul_add_mod_self_right _ _ _

theorem withSign_div {p : Nat} (hp : p < f.signBit) (negative : Bool) :
    f.withSign negative p / 2 ^ f.fractionBits % f.exponents = p / 2 ^ f.fractionBits := by
  have hpos : 0 < 2 ^ f.fractionBits := Nat.two_pow_pos _
  have hlt : p / 2 ^ f.fractionBits < f.exponents := (Nat.div_lt_iff_lt_mul hpos).mpr hp
  cases negative
  · exact Nat.mod_eq_of_lt hlt
  · have : (f.signBit + p) / 2 ^ f.fractionBits = f.exponents + p / 2 ^ f.fractionBits := by
      rw [signBit, Nat.add_comm]
      exact (Nat.add_mul_div_right p _ hpos).trans (Nat.add_comm _ _)
    rw [withSign, if_pos rfl, this, Nat.add_mod_left]
    exact Nat.mod_eq_of_lt hlt

theorem withSign_sign {p : Nat} (hp : p < f.signBit) (negative : Bool) :
    decide (f.withSign negative p / f.signBit % 2 = 1) = negative := by
  cases negative
  · simp [withSign, Nat.div_eq_of_lt hp]
  · have : (f.signBit + p) / f.signBit = 1 := by
      rw [Nat.add_div_left _ (by omega), Nat.div_eq_of_lt hp]
    simp [withSign, this]

theorem withSign_mod_signBit {p : Nat} (hp : p < f.signBit) (negative : Bool) :
    f.withSign negative p % f.signBit = p := by
  cases negative
  · exact Nat.mod_eq_of_lt hp
  · rw [withSign, if_pos rfl, Nat.add_mod_left]
    exact Nat.mod_eq_of_lt hp

theorem withSign_inj {p q : Nat} {negative : Bool} :
    f.withSign negative p = f.withSign negative q ↔ p = q := by
  cases negative
  · rfl
  · exact Nat.add_left_cancel_iff

/-- A pattern below infinity, with or without the sign, stands for its units. -/
theorem datum_withSign {p : Nat} (hp : p < f.infinity) (negative : Bool) :
    f.datum (f.withSign negative p) = .finite negative (f.coefficient p) (f.unit p) := by
  have hlt : p < f.signBit := hp.trans (infinity_lt_signBit f)
  have hb : p / 2 ^ f.fractionBits < f.exponents - 1 :=
    (Nat.div_lt_iff_lt_mul (Nat.two_pow_pos _)).mpr hp
  have hsum := binade_mul_add_coefficient (f := f) p
  have hsplit := Nat.div_add_mod p (2 ^ f.fractionBits)
  simp only [datum, Nat.pow_eq, withSign_mod, withSign_div hlt, withSign_sign hlt]
  rw [if_neg hb.ne, unit]
  by_cases hzero : p / 2 ^ f.fractionBits = 0
  · rw [if_pos hzero]
    have hbin : f.binade p = 0 := by rw [binade, hzero]
    rw [hbin] at hsum
    rw [hzero] at hsplit
    rw [show f.coefficient p = p % 2 ^ f.fractionBits by omega, hbin]
    simp
  · rw [if_neg hzero]
    have hbin : p / 2 ^ f.fractionBits = f.binade p + 1 := by
      rw [binade, Nat.sub_add_cancel (Nat.one_le_iff_ne_zero.mpr hzero)]
    rw [hbin, Nat.mul_comm, Nat.add_mul, Nat.one_mul] at hsplit
    rw [show f.coefficient p = 2 ^ f.fractionBits + p % 2 ^ f.fractionBits by omega]
    rfl

/-- Every finite datum comes from a pattern below infinity and a sign. -/
theorem of_datum_eq_finite {bits coeff : Nat} {negative : Bool} {exponent : Int}
    (hbits : bits < 2 * f.signBit) (h : f.datum bits = .finite negative coeff exponent) :
    ∃ p < f.infinity, bits = f.withSign negative p ∧ coeff = f.coefficient p ∧
      exponent = f.unit p := by
  have hpos : 0 < f.signBit := lt_of_le_of_lt (Nat.zero_le _) (infinity_lt_signBit f)
  obtain ⟨sign, p, hp, rfl⟩ : ∃ sign p, p < f.signBit ∧ bits = f.withSign sign p := by
    rcases Nat.lt_or_ge bits f.signBit with hlt | hge
    · exact ⟨false, bits, hlt, rfl⟩
    · refine ⟨true, bits - f.signBit, by omega, ?_⟩
      rw [withSign, if_pos rfl]
      omega
  rcases Nat.lt_or_ge p f.infinity with hlt | hge
  · rw [datum_withSign hlt] at h
    obtain ⟨rfl, rfl, rfl⟩ := Datum.finite.inj h
    exact ⟨p, hlt, rfl, rfl, rfl⟩
  · have hbiased : p / 2 ^ f.fractionBits = f.exponents - 1 := by
      have := (Nat.le_div_iff_mul_le (Nat.two_pow_pos f.fractionBits)).mpr hge
      have := (Nat.div_lt_iff_lt_mul (Nat.two_pow_pos f.fractionBits)).mpr hp
      omega
    simp only [datum, Nat.pow_eq, withSign_mod, withSign_div hp, hbiased] at h
    rw [if_pos trivial] at h
    split at h <;> cases h

end Format

theorem ratio_eq (coeff : Nat) (exponent : Int) :
    0 < (ratio coeff exponent).2 ∧
      ((ratio coeff exponent).1 : ℚ) / (ratio coeff exponent).2 = coeff * 2 ^ exponent := by
  unfold ratio
  split
  · rename_i he
    obtain ⟨k, rfl⟩ := Int.eq_ofNat_of_zero_le he
    simp
  · rename_i he
    obtain ⟨k, rfl⟩ : ∃ k : Nat, exponent = -k := ⟨(-exponent).toNat, by omega⟩
    refine ⟨Nat.two_pow_pos _, ?_⟩
    simp [div_eq_mul_inv]

/-! ## 2. Widening -/

namespace Format

/-- Double precision holds every number of few enough bits exactly. -/
theorem double_exact {c : Nat} {e : Int} (hc : c < 2 ^ 53) (he : -1074 ≤ e) (he' : e ≤ 900) :
    double.round (c * 2 ^ e) < double.infinity ∧
      double.value (double.round (c * 2 ^ e)) = c * 2 ^ e := by
  obtain ⟨i, rfl⟩ : ∃ i : Nat, e = double.leastExponent + i := ⟨(e + 1074).toNat, by
    rw [show double.leastExponent = -1074 from rfl]
    omega⟩
  obtain ⟨q, hle, hq⟩ := exists_value_eq (f := double) (i := i) hc
  have hlt : q < double.infinity := by
    rw [show double.leastExponent = -1074 from rfl] at he'
    rw [show double.fractionBits = 52 from rfl] at hle
    rw [show double.infinity = 2047 * 2 ^ 52 from rfl]
    omega
  rw [← hq, round_value hlt.le]
  exact ⟨hlt, rfl⟩

/-- A single-precision pattern has at most 24 bits in a unit of the format's range. -/
theorem single_bounds {p : Nat} (hp : p < single.infinity) :
    single.coefficient p < 2 ^ 24 ∧ -149 ≤ single.unit p ∧ single.unit p ≤ 104 := by
  have hb : p / 2 ^ single.fractionBits < 255 := (Nat.div_lt_iff_lt_mul (by decide)).mpr hp
  refine ⟨coefficient_lt p, ?_⟩
  rw [unit, binade, show single.leastExponent = -149 from rfl]
  omega

/-- The double of the same value as a single-precision pattern. -/
def widened (p : Nat) : Nat := double.round (single.value p)

theorem widened_lt {p : Nat} (hp : p < single.infinity) : widened p < double.infinity := by
  obtain ⟨hc, he, he'⟩ := single_bounds hp
  exact (double_exact (by omega) (by omega) (by omega)).1

theorem value_widened {p : Nat} (hp : p < single.infinity) :
    double.value (widened p) = single.value p := by
  obtain ⟨hc, he, he'⟩ := single_bounds hp
  exact (double_exact (by omega) (by omega) (by omega)).2

theorem widened_inj {p q : Nat} (hp : p < single.infinity) (hq : q < single.infinity) :
    widened p = widened q ↔ p = q := by
  refine ⟨fun h => ?_, congrArg _⟩
  rw [← (strictMono_value (f := single)).injective.eq_iff, ← value_widened hp,
    ← value_widened hq, h]

end Format

namespace Double

open Format

theorem toNat_ofPattern {b : Nat} (h : b < 2 * Format.double.signBit) :
    (ofPattern b).bits.toNat = b := by
  have hsize : 2 * Format.double.signBit = 2 ^ 64 := by decide
  exact UInt64.toNat_ofNat_of_lt (lt_of_lt_of_eq h hsize)

theorem ofPattern_inj {a b : Nat} (ha : a < 2 * Format.double.signBit)
    (hb : b < 2 * Format.double.signBit) : ofPattern a = ofPattern b ↔ a = b := by
  refine ⟨fun h => ?_, congrArg _⟩
  rw [← toNat_ofPattern ha, ← toNat_ofPattern hb, h]

theorem withSign_lt {p : Nat} (hp : p < Format.double.infinity) (negative : Bool) :
    Format.double.withSign negative p < 2 * Format.double.signBit := by
  have := infinity_lt_signBit Format.double
  rw [withSign]
  split <;> omega

theorem datum_ofPattern {p : Nat} (hp : p < Format.double.infinity) (negative : Bool) :
    (ofPattern (Format.double.withSign negative p)).datum
      = .finite negative (Format.double.coefficient p) (Format.double.unit p) := by
  rw [datum, toNat_ofPattern (withSign_lt hp negative), datum_withSign hp]

/-- Widening a finite single-precision pattern keeps its sign and its value. -/
theorem ofSingle_withSign {p : Nat} (hp : p < single.infinity) (negative : Bool) :
    ofSingle (single.withSign negative p)
      = ofPattern (Format.double.withSign negative (widened p)) := by
  obtain ⟨hpos, hratio⟩ := ratio_eq (single.coefficient p) (single.unit p)
  simp only [ofSingle, datum_withSign hp, nearest, nearest_eq_round _ hpos, hratio, widened,
    Format.value]

/-- Narrowing a finite double rounds its value, and fails where that gives infinity. -/
theorem toSingle?_ofPattern {q : Nat} (hq : q < Format.double.infinity) :
    (ofPattern q).toSingle? =
      if single.round (Format.double.value q) = single.infinity then none
      else some (single.round (Format.double.value q)) := by
  obtain ⟨hpos, hratio⟩ := ratio_eq (Format.double.coefficient q) (Format.double.unit q)
  have hdatum := datum_ofPattern hq false
  rw [withSign_false] at hdatum
  have hvalue : _ = Format.double.value q := hratio
  simp only [toSingle?, hdatum, nearest_eq_round _ hpos, hvalue, withSign_false]

end Double

/-! ## 3. Rounding twice -/

namespace Format

variable {x y : ℚ} {p : Nat}

/-- The number of the double nearest to a number. -/
def viaDouble (x : ℚ) : ℚ := double.value (double.round x)

/-- The single-precision pattern a number comes to by way of double precision. -/
def narrowed (x : ℚ) : Nat := single.round (viaDouble x)

theorem viaDouble_nonneg (x : ℚ) : 0 ≤ viaDouble x := value_nonneg _

theorem viaDouble_mono (hx : 0 ≤ x) (hxy : x ≤ y) : viaDouble x ≤ viaDouble y :=
  strictMono_value.monotone (round_mono hx hxy)

theorem narrowed_mono (hx : 0 ≤ x) (hxy : x ≤ y) : narrowed x ≤ narrowed y :=
  round_mono (viaDouble_nonneg x) (viaDouble_mono hx hxy)

theorem viaDouble_exact {c : Nat} {e : Int} (hc : c < 2 ^ 53) (he : -1074 ≤ e) (he' : e ≤ 900) :
    viaDouble (c * 2 ^ e) = c * 2 ^ e :=
  (double_exact hc he he').2

/-- A double holds the midpoints of single precision. -/
theorem viaDouble_midpoint (hp : p < single.infinity) :
    double.round (single.midpoint p) < double.infinity ∧
      viaDouble (single.midpoint p) = single.midpoint p := by
  obtain ⟨hc, he, he'⟩ := single_bounds hp
  have h := double_exact (c := 2 * single.coefficient p + 1) (e := single.unit p - 1)
    (by omega) (by omega) (by omega)
  push_cast at h
  exact h

/-- What lies within an eighth of a unit of a single-precision number comes to it. -/
theorem narrowed_eq_of_abs_sub_le (hx : 0 ≤ x) (hpos : 0 < p) (hp : p < single.infinity)
    (h : |x - single.value p| ≤ 2 ^ (single.unit p - 3)) : narrowed x = p := by
  obtain ⟨hc, he, he'⟩ := single_bounds hp
  have hcpos := coefficient_pos (f := single) hpos
  have hvalue : single.value p = 8 * single.coefficient p * 2 ^ (single.unit p - 3) := by
    rw [value, zpow_sub₀ (by norm_num)]
    norm_num
    ring
  have hlow := viaDouble_exact (c := 8 * single.coefficient p - 1) (e := single.unit p - 3)
    (by omega) (by omega) (by omega)
  have hup := viaDouble_exact (c := 8 * single.coefficient p + 1) (e := single.unit p - 3)
    (by omega) (by omega) (by omega)
  rw [Nat.cast_sub (by omega)] at hlow
  push_cast at hlow hup
  have heighth : (2 : ℚ) ^ (single.unit p - 3) < 2 ^ (single.unit p - 2) := by
    apply zpow_lt_zpow_right₀ <;> norm_num
  have hone : (1 : ℚ) ≤ single.coefficient p := by exact_mod_cast hcpos
  have hunit : (0 : ℚ) < 2 ^ (single.unit p - 3) := by positivity
  obtain ⟨hl, hu⟩ := abs_le.mp h
  have hge := viaDouble_mono (x := (8 * single.coefficient p - 1) * 2 ^ (single.unit p - 3))
    (y := x) (by nlinarith) (by linarith)
  have hle := viaDouble_mono (y := (8 * single.coefficient p + 1) * 2 ^ (single.unit p - 3))
    hx (by linarith)
  rw [hlow] at hge
  rw [hup] at hle
  refine round_eq_of_abs_sub_lt (viaDouble_nonneg x) hp ?_
  rw [abs_lt]
  constructor <;> linarith

/-- Rounding to a double that is no less than `2 ^ (-150)` keeps 53 bits. -/
theorem abs_sub_viaDouble_le (hx : 0 ≤ x) (hlt : double.round x < double.infinity)
    (hlow : 2 ^ (-150 : Int) ≤ viaDouble x) :
    |x - viaDouble x| * 2 ^ 53 ≤ viaDouble x := by
  have hhalf := abs_sub_value_round_le hx hlt
  have hb : double.binade (double.round x) ≠ 0 := by
    intro hzero
    have hc := coefficient_lt (f := double) (double.round x)
    have hc' : (double.coefficient (double.round x) : ℚ) < 2 ^ 53 := by exact_mod_cast hc
    have hunit : (2 : ℚ) ^ double.unit (double.round x) ≤ 2 ^ (-203 : Int) := by
      rw [unit, hzero, show double.leastExponent = -1074 from rfl]
      apply zpow_le_zpow_right₀ <;> norm_num
    have : viaDouble x < 2 ^ 53 * 2 ^ (-203 : Int) := by
      rw [viaDouble, value]
      exact mul_lt_mul_of_lt_of_le_of_nonneg_of_pos hc' hunit (by positivity) (by positivity)
    norm_num at this hlow
    linarith
  have hc : (2 : ℚ) ^ 52 ≤ double.coefficient (double.round x) := by
    exact_mod_cast le_coefficient hb
  have hunit : (0 : ℚ) < 2 ^ double.unit (double.round x) := by positivity
  rw [zpow_sub_one₀ (by norm_num)] at hhalf
  calc |x - viaDouble x| * 2 ^ 53
      ≤ 2 ^ double.unit (double.round x) * 2⁻¹ * 2 ^ 53 := by
        gcongr
        exact hhalf
    _ = 2 ^ 52 * 2 ^ double.unit (double.round x) := by ring
    _ ≤ double.coefficient (double.round x) * 2 ^ double.unit (double.round x) := by gcongr

/-- A number whose double is a midpoint lies within a `2 ^ 53`rd of that midpoint. -/
theorem abs_sub_midpoint_le (hx : 0 ≤ x) (hp : p < single.infinity)
    (hy : viaDouble x = single.midpoint p) :
    |x - single.midpoint p| * 2 ^ 53 ≤ single.midpoint p := by
  obtain ⟨hlt, hmid⟩ := viaDouble_midpoint hp
  have hround : double.round x = double.round (single.midpoint p) :=
    strictMono_value.injective (hy.trans hmid.symm)
  have hlow : 2 ^ (-150 : Int) ≤ single.midpoint p := by
    obtain ⟨hc, he, he'⟩ := single_bounds hp
    have hone : (1 : ℚ) ≤ 2 * single.coefficient p + 1 := by
      have : (0 : ℚ) ≤ single.coefficient p := by positivity
      linarith
    have hunit : (2 : ℚ) ^ (-150 : Int) ≤ 2 ^ (single.unit p - 1) :=
      zpow_le_zpow_right₀ (by norm_num) (by omega)
    calc (2 : ℚ) ^ (-150 : Int)
        ≤ 1 * 2 ^ (single.unit p - 1) := by rwa [one_mul]
      _ ≤ (2 * single.coefficient p + 1) * 2 ^ (single.unit p - 1) := by gcongr
  rw [← hy]
  exact abs_sub_viaDouble_le hx (hround ▸ hlt) (hlow.trans_eq hy.symm)

/-- A number that comes to an upper neighbour only through its double lies below the
midpoint, where its double is, and the lower neighbour is odd. -/
theorem of_round_lt_narrowed (hx : 0 ≤ x) (hp : p < single.infinity)
    (hle : single.round x ≤ p) (hlt : p < narrowed x) :
    x ≤ single.midpoint p ∧ viaDouble x = single.midpoint p ∧ ¬ Even p := by
  have hmid : x ≤ single.midpoint p := le_midpoint_of_round_le hx hp hle
  have hy : viaDouble x = single.midpoint p := by
    apply le_antisymm
    · exact (viaDouble_mono hx hmid).trans_eq (viaDouble_midpoint hp).2
    · exact midpoint_le_of_lt_round (viaDouble_nonneg x) hlt
  refine ⟨hmid, hy, fun heven => ?_⟩
  exact hlt.not_ge ((round_le_iff (viaDouble_nonneg x) hp).mpr (.inr ⟨hy, heven⟩))

/-- A number that comes to a lower neighbour only through its double lies above the
midpoint, where its double is, and the lower neighbour is even. -/
theorem of_narrowed_lt_round (hx : 0 ≤ x) (hp : p < single.infinity)
    (hle : narrowed x ≤ p) (hlt : p < single.round x) :
    single.midpoint p ≤ x ∧ viaDouble x = single.midpoint p ∧ Even p := by
  have hmid : single.midpoint p ≤ x := midpoint_le_of_lt_round hx hlt
  have hy : viaDouble x = single.midpoint p := by
    apply le_antisymm
    · exact le_midpoint_of_round_le (viaDouble_nonneg x) hp hle
    · refine (viaDouble_midpoint hp).2.symm.trans_le (viaDouble_mono ?_ hmid)
      exact (value_nonneg p).trans (value_lt_midpoint p).le
  refine ⟨hmid, hy, ?_⟩
  rcases (round_le_iff (viaDouble_nonneg x) hp).mp hle with hbelow | ⟨-, heven⟩
  · exact absurd hy hbelow.ne
  · exact heven

/-- Both ways to single precision agree, or the double is a midpoint next to `p` and the
number is not. Then `p` is the even neighbour, and the number lies on the other side of
the midpoint and within a `2 ^ 53`rd of it. -/
theorem round_eq_or_of_narrowed_eq (hx : 0 ≤ x) (hpos : 0 < p) (hp : p < single.infinity)
    (h : narrowed x = p) :
    single.round x = p ∨
      ∃ q < single.infinity, Even p ∧ (p = q ∨ p = q + 1) ∧ x ≠ single.midpoint q ∧
        2 ^ (single.unit q - 1) < |x - single.value p| ∧
        |x - single.midpoint q| * 2 ^ 53 ≤ single.midpoint q := by
  -- The midpoint itself comes to the same pattern both ways.
  have hne {q : Nat} (hy : viaDouble x = single.midpoint q) (hround : single.round x ≠ p) :
      x ≠ single.midpoint q := by
    rintro rfl
    apply hround
    rw [← h, narrowed, hy]
  rcases Nat.lt_trichotomy (single.round x) p with hlt | heq | hgt
  · right
    obtain ⟨q, rfl⟩ : ∃ q, p = q + 1 := ⟨p - 1, by omega⟩
    have hq : q < single.infinity := by omega
    obtain ⟨hle, hy, hodd⟩ := of_round_lt_narrowed hx hq (by omega) (by omega)
    have hx' := hne hy hlt.ne
    refine ⟨q, hq, Nat.even_add_one.mpr hodd, .inr rfl, hx', ?_, abs_sub_midpoint_le hx hq hy⟩
    have hside := midpoint_eq' (f := single) q
    have := lt_of_le_of_ne hle hx'
    rw [abs_sub_comm]
    exact lt_of_lt_of_le (by linarith) (le_abs_self _)
  · exact .inl heq
  · right
    obtain ⟨hge, hy, heven⟩ := of_narrowed_lt_round hx hp h.le hgt
    have hx' := hne hy hgt.ne'
    refine ⟨p, hp, heven, .inl rfl, hx', ?_, abs_sub_midpoint_le hx hp hy⟩
    have hside := midpoint_eq (f := single) p
    have := lt_of_le_of_ne hge hx'.symm
    exact lt_of_lt_of_le (by linarith) (le_abs_self _)

end Format

end ApiSurface.Number
