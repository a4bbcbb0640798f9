/-
ApiSurface.Proofs.Number.Nearest — the pattern nearest to a fraction.

The patterns of a format are numbered in the order of their values, so a pattern
`p` and its successor are neighbours: `value p` is `coefficient p` units of
`2 ^ unit p`, and the next value is one unit above. Half way between the two lies
`midpoint p`. With these, `nearest` is one equivalence: a fraction goes to `p` or to
a pattern below it iff it lies below the midpoint above `p`, or on it with `p` even
(`nearest_le_iff`). Monotony, exactness on values of the format, and the intervals
that go to one pattern all follow from this line without opening `nearest` again.
-/
import ApiSurface.Number.Binary
import Mathlib.Algebra.Order.Field.Power
import Mathlib.Algebra.Order.Field.Rat
import Mathlib.Data.Nat.Log
import Mathlib.Tactic.FieldSimp
import Mathlib.Tactic.Linarith
import Mathlib.Tactic.NormNum
import Mathlib.Tactic.Positivity
import Mathlib.Tactic.Ring

namespace ApiSurface.Number.Format

variable {f : Format}

/-! ## 1. Patterns as numbers -/

/-- How many times the unit has doubled since the least numbers. -/
def binade (f : Format) (p : Nat) : Nat := p / 2 ^ f.fractionBits - 1

/-- The exponent of the unit in which a pattern counts. -/
def unit (f : Format) (p : Nat) : Int := f.leastExponent + f.binade p

/-- How many units a pattern counts. -/
def coefficient (f : Format) (p : Nat) : Nat := p - f.binade p * 2 ^ f.fractionBits

/-- The number of a pattern. Patterns from `infinity` on are read as if the
exponents went on. -/
def value (f : Format) (p : Nat) : ℚ := f.coefficient p * 2 ^ f.unit p

/-- The number half way between a pattern's and the next one. -/
def midpoint (f : Format) (p : Nat) : ℚ := (2 * f.coefficient p + 1) * 2 ^ (f.unit p - 1)

theorem binade_mul_le (p : Nat) : f.binade p * 2 ^ f.fractionBits ≤ p := by
  calc f.binade p * 2 ^ f.fractionBits
      ≤ p / 2 ^ f.fractionBits * 2 ^ f.fractionBits :=
        Nat.mul_le_mul_right _ (Nat.sub_le _ _)
    _ ≤ p := Nat.div_mul_le_self _ _

theorem binade_mul_add_coefficient (p : Nat) :
    f.binade p * 2 ^ f.fractionBits + f.coefficient p = p :=
  Nat.add_sub_cancel' (binade_mul_le p)

theorem coefficient_lt (p : Nat) : f.coefficient p < 2 ^ (f.fractionBits + 1) := by
  have hpos : 0 < 2 ^ f.fractionBits := Nat.two_pow_pos _
  have hsplit := Nat.div_add_mod p (2 ^ f.fractionBits)
  have hmod := Nat.mod_lt p hpos
  have hsum := binade_mul_add_coefficient (f := f) p
  rw [binade] at hsum
  rw [Nat.pow_succ]
  rcases Nat.eq_zero_or_pos (p / 2 ^ f.fractionBits) with hzero | hone
  · rw [hzero] at hsplit hsum
    omega
  · obtain ⟨b, hb⟩ := Nat.exists_eq_succ_of_ne_zero hone.ne'
    rw [hb] at hsplit hsum
    rw [Nat.succ_eq_add_one] at hsplit hsum
    rw [Nat.add_sub_cancel] at hsum
    rw [Nat.mul_add, Nat.mul_one, Nat.mul_comm] at hsplit
    omega

/-- Outside the least binade a coefficient has its leading bit. -/
theorem le_coefficient {p : Nat} (h : f.binade p ≠ 0) :
    2 ^ f.fractionBits ≤ f.coefficient p := by
  have hsum := binade_mul_add_coefficient (f := f) p
  have hle := Nat.div_mul_le_self p (2 ^ f.fractionBits)
  have hb : p / 2 ^ f.fractionBits = f.binade p + 1 := by
    rw [binade] at h ⊢
    omega
  rw [hb, Nat.add_mul, Nat.one_mul] at hle
  omega

theorem coefficient_pos {p : Nat} (h : 0 < p) : 0 < f.coefficient p := by
  have hsum := binade_mul_add_coefficient (f := f) p
  by_cases hb : f.binade p = 0
  · rw [hb] at hsum
    omega
  · exact lt_of_lt_of_le (Nat.two_pow_pos _) (le_coefficient hb)

/-- A pattern is found from its binade and its coefficient. Two units more than the
leading bit are a first number of the next binade, and are counted either way. -/
theorem value_eq {i c : Nat} (hc : c ≤ 2 ^ (f.fractionBits + 1))
    (hi : i = 0 ∨ 2 ^ f.fractionBits ≤ c) :
    f.value (i * 2 ^ f.fractionBits + c) = c * 2 ^ (f.leastExponent + i) := by
  have hpos : 0 < 2 ^ f.fractionBits := Nat.two_pow_pos _
  rw [Nat.pow_succ] at hc
  have hdiv : (i * 2 ^ f.fractionBits + c) / 2 ^ f.fractionBits = i + c / 2 ^ f.fractionBits := by
    rw [Nat.add_comm, Nat.add_mul_div_right _ _ hpos, Nat.add_comm]
  rcases Nat.lt_or_ge c (2 ^ f.fractionBits) with hlt | hge
  · have hzero : i = 0 := by omega
    subst hzero
    simp [value, unit, coefficient, binade, Nat.div_eq_of_lt hlt]
  · rcases Nat.lt_or_ge c (2 ^ f.fractionBits * 2) with hlt' | hge'
    · have hone : c / 2 ^ f.fractionBits = 1 := by
        apply Nat.div_eq_of_lt_le <;> omega
      simp [value, unit, coefficient, binade, hdiv, hone]
    · have htwo : c = 2 ^ f.fractionBits * 2 := by omega
      have hone : c / 2 ^ f.fractionBits = 2 := by
        rw [htwo]
        exact Nat.mul_div_cancel_left _ hpos
      have hsub : i * 2 ^ f.fractionBits + c - (i + 1) * 2 ^ f.fractionBits
          = 2 ^ f.fractionBits := by
        rw [Nat.add_mul]
        omega
      rw [value, unit, coefficient, binade, hdiv, hone]
      rw [show i + 2 - 1 = i + 1 by omega, hsub, htwo]
      push_cast
      rw [← add_assoc, zpow_add_one₀ (by norm_num)]
      ring

theorem unit_mono {p q : Nat} (h : p ≤ q) : f.unit p ≤ f.unit q := by
  have := Nat.div_le_div_right (c := 2 ^ f.fractionBits) h
  rw [unit, unit, binade, binade]
  omega

theorem unit_succ_le (p : Nat) : f.unit (p + 1) ≤ f.unit p + 1 := by
  have : (p + 1) / 2 ^ f.fractionBits ≤ p / 2 ^ f.fractionBits + 1 := by
    rw [← Nat.add_div_right p (Nat.two_pow_pos _)]
    exact Nat.div_le_div_right (Nat.add_le_add_left Nat.one_le_two_pow p)
  rw [unit, unit, binade, binade]
  omega

theorem value_succ (p : Nat) : f.value (p + 1) = f.value p + 2 ^ f.unit p := by
  have hsum := binade_mul_add_coefficient (f := f) p
  have hlt := coefficient_lt (f := f) p
  have hnext : f.value (p + 1) = (f.coefficient p + 1 : Nat) * 2 ^ f.unit p := by
    conv_lhs => rw [← hsum, Nat.add_assoc]
    refine value_eq hlt ?_
    by_cases hb : f.binade p = 0
    · exact .inl hb
    · exact .inr (Nat.le_succ_of_le (le_coefficient hb))
  rw [hnext, value]
  push_cast
  ring

theorem midpoint_eq (p : Nat) : f.midpoint p = f.value p + 2 ^ (f.unit p - 1) := by
  rw [midpoint, value, zpow_sub_one₀ (by norm_num)]
  ring

theorem midpoint_eq' (p : Nat) : f.midpoint p = f.value (p + 1) - 2 ^ (f.unit p - 1) := by
  rw [midpoint_eq, value_succ, zpow_sub_one₀ (by norm_num)]
  ring

theorem strictMono_value : StrictMono f.value := by
  refine strictMono_nat_of_lt_succ fun p => ?_
  rw [value_succ]
  have : (0 : ℚ) < 2 ^ f.unit p := by positivity
  linarith

theorem value_lt_midpoint (p : Nat) : f.value p < f.midpoint p := by
  rw [midpoint_eq]
  have : (0 : ℚ) < 2 ^ (f.unit p - 1) := by positivity
  linarith

theorem midpoint_lt_value (p : Nat) : f.midpoint p < f.value (p + 1) := by
  rw [midpoint_eq']
  have : (0 : ℚ) < 2 ^ (f.unit p - 1) := by positivity
  linarith

@[simp] theorem value_zero : f.value 0 = 0 := by
  simp [value, coefficient]

theorem value_nonneg (p : Nat) : 0 ≤ f.value p := by
  rw [value]
  positivity

/-- The patterns of a binade are below all numbers of more than `fractionBits + 1` bits in its
units, and count so many in the units of the binades below. -/
theorem two_pow_le_value {i p : Nat} (h : i < f.binade p) :
    (2 : ℚ) ^ (f.fractionBits + 1) * 2 ^ (f.leastExponent + i) ≤ f.value p := by
  have hc := le_coefficient (f := f) (p := p) (by omega)
  have he : f.leastExponent + i + 1 ≤ f.unit p := by
    rw [unit]
    omega
  calc (2 : ℚ) ^ (f.fractionBits + 1) * 2 ^ (f.leastExponent + i)
      = 2 ^ f.fractionBits * 2 ^ (f.leastExponent + i + 1) := by
        rw [zpow_add_one₀ (by norm_num), pow_succ]
        ring
    _ ≤ f.value p := by
      rw [value]
      gcongr
      · exact_mod_cast hc
      · norm_num

theorem value_succ_le_two_pow {i p : Nat} (h : f.binade p < i) :
    f.value (p + 1) ≤ 2 ^ f.fractionBits * 2 ^ (f.leastExponent + i) := by
  have hc := coefficient_lt (f := f) p
  have he : f.unit p + 1 ≤ f.leastExponent + i := by
    rw [unit]
    omega
  calc f.value (p + 1) = (f.coefficient p + 1) * 2 ^ f.unit p := by
        rw [value_succ, value]
        ring
    _ ≤ 2 ^ (f.fractionBits + 1) * 2 ^ f.unit p := by
      gcongr
      exact_mod_cast hc
    _ = 2 ^ f.fractionBits * 2 ^ (f.unit p + 1) := by
      rw [zpow_add_one₀ (by norm_num), pow_succ]
      ring
    _ ≤ 2 ^ f.fractionBits * 2 ^ (f.leastExponent + i) := by
      gcongr
      norm_num

/-! ## 2. Rounding one quotient -/

theorem roundDiv_le_iff (num : Nat) {den : Nat} (hd : 0 < den) (s : Nat) :
    roundDiv num den ≤ s ↔
      (num : ℚ) / den < s + 1 / 2 ∨ (num : ℚ) / den = s + 1 / 2 ∧ Even s := by
  have hd' : (0 : ℚ) < den := by exact_mod_cast hd
  have hlt : (num : ℚ) / den < s + 1 / 2 ↔ 2 * num < (2 * s + 1) * den := by
    rw [div_lt_iff₀ hd', ← Nat.cast_lt (α := ℚ)]
    push_cast
    constructor <;> intro h <;> linarith
  have heq : (num : ℚ) / den = s + 1 / 2 ↔ 2 * num = (2 * s + 1) * den := by
    rw [div_eq_iff hd'.ne', ← Nat.cast_inj (R := ℚ)]
    push_cast
    constructor <;> intro h <;> linarith
  rw [hlt, heq, Nat.even_iff]
  have hsplit := Nat.div_add_mod num den
  have hmod := Nat.mod_lt num hd
  simp only [roundDiv]
  generalize num / den = q at *
  generalize num % den = r at *
  rcases Nat.lt_trichotomy q s with hqs | rfl | hqs
  · obtain ⟨t, rfl⟩ := Nat.exists_eq_add_of_lt hqs
    have : (2 * (q + t + 1) + 1) * den = 2 * (den * q) + 2 * (t * den) + 3 * den := by ring
    split_ifs <;> omega
  · have : (2 * q + 1) * den = 2 * (den * q) + den := by ring
    split_ifs <;> omega
  · obtain ⟨t, rfl⟩ := Nat.exists_eq_add_of_lt hqs
    have : (2 * s + 1) * den = 2 * (s * den) + den := by ring
    have : den * (s + t + 1) = s * den + t * den + den := by ring
    split_ifs <;> omega

theorem roundDiv_le_of_le {num den s : Nat} (hd : 0 < den) (h : (num : ℚ) / den ≤ s) :
    roundDiv num den ≤ s :=
  (roundDiv_le_iff num hd s).mpr (.inl (by linarith))

theorem le_roundDiv_of_le {num den s : Nat} (hd : 0 < den) (h : (s : ℚ) ≤ num / den) :
    s ≤ roundDiv num den := by
  by_contra hlt
  obtain ⟨t, rfl⟩ := Nat.exists_eq_add_of_lt (Nat.zero_lt_of_lt (not_le.mp hlt))
  have hle : roundDiv num den ≤ t := by omega
  rw [roundDiv_le_iff num hd] at hle
  push_cast at h
  rcases hle with hle | ⟨hle, -⟩ <;> linarith

/-- A rounded quotient is off by one half at most. -/
theorem abs_roundDiv_sub_le (num : Nat) {den : Nat} (hd : 0 < den) :
    |(roundDiv num den : ℚ) - num / den| ≤ 1 / 2 := by
  have hup := (roundDiv_le_iff num hd (roundDiv num den)).mp le_rfl
  have hup' : (num : ℚ) / den ≤ roundDiv num den + 1 / 2 := hup.elim le_of_lt fun h => h.1.le
  rw [abs_le]
  refine ⟨by linarith, ?_⟩
  rcases Nat.eq_zero_or_pos (roundDiv num den) with hzero | hpos
  · have : (0 : ℚ) ≤ num / den := by positivity
    rw [hzero]
    push_cast
    linarith
  · obtain ⟨q, hq⟩ := Nat.exists_eq_add_of_lt hpos
    have hlow := mt (roundDiv_le_iff num hd q).mpr (by omega)
    have := not_lt.mp fun hlt => hlow (.inl hlt)
    rw [hq]
    push_cast
    linarith

theorem scaled_ratio (num : Nat) {den : Nat} (hd : 0 < den) (e : Int) :
    0 < (scaled num den e).2 ∧
      ((scaled num den e).1 : ℚ) / (scaled num den e).2 = (num : ℚ) / den / 2 ^ e := by
  unfold scaled
  split
  · rename_i he
    obtain ⟨k, rfl⟩ := Int.eq_ofNat_of_zero_le he
    refine ⟨Nat.mul_pos hd (Nat.two_pow_pos _), ?_⟩
    rw [div_div]
    simp
  · rename_i he
    obtain ⟨k, rfl⟩ : ∃ k : Nat, e = -k := ⟨(-e).toNat, by omega⟩
    refine ⟨hd, ?_⟩
    simp
    ring

/-- A scaled fraction is compared with a natural number by its whole part. -/
theorem scaled_div_lt_iff (num : Nat) {den : Nat} (hd : 0 < den) (e : Int) (s : Nat) :
    (scaled num den e).1 / (scaled num den e).2 < s ↔ (num : ℚ) / den / 2 ^ e < s := by
  obtain ⟨hpos, hratio⟩ := scaled_ratio num hd e
  have hpos' : (0 : ℚ) < (scaled num den e).2 := by exact_mod_cast hpos
  rw [← hratio, div_lt_iff₀ hpos', Nat.div_lt_iff_lt_mul hpos]
  exact_mod_cast Iff.rfl

/-! ## 3. The binade of a fraction -/

theorem div_lt_two_pow {num den : Nat} (hn : num ≠ 0) (hd : 0 < den) :
    (num : ℚ) / den < 2 ^ ((num.log2 : Int) - den.log2 + 1) := by
  have hnum : (num : ℚ) < 2 ^ ((num.log2 : Int) + 1) := by
    exact_mod_cast (Nat.lt_log2_self : num < 2 ^ (num.log2 + 1))
  have hden : (2 : ℚ) ^ (den.log2 : Int) ≤ den := by
    exact_mod_cast Nat.log2_self_le hd.ne'
  have hpos : (0 : ℚ) < 2 ^ (den.log2 : Int) := by positivity
  calc (num : ℚ) / den ≤ num / 2 ^ (den.log2 : Int) := by gcongr
    _ < 2 ^ ((num.log2 : Int) + 1) / 2 ^ (den.log2 : Int) := by gcongr
    _ = 2 ^ ((num.log2 : Int) - den.log2 + 1) := by
      rw [← zpow_sub₀ (by norm_num)]
      congr 1
      ring

theorem two_pow_lt_div {num den : Nat} (hn : num ≠ 0) (hd : 0 < den) :
    2 ^ ((num.log2 : Int) - den.log2 - 1) < (num : ℚ) / den := by
  have hnum : (2 : ℚ) ^ (num.log2 : Int) ≤ num := by
    exact_mod_cast Nat.log2_self_le hn
  have hden : (den : ℚ) < 2 ^ ((den.log2 : Int) + 1) := by
    exact_mod_cast (Nat.lt_log2_self : den < 2 ^ (den.log2 + 1))
  have hpos : (0 : ℚ) < den := by exact_mod_cast hd
  calc (2 : ℚ) ^ ((num.log2 : Int) - den.log2 - 1)
      = 2 ^ (num.log2 : Int) / 2 ^ ((den.log2 : Int) + 1) := by
        rw [← zpow_sub₀ (by norm_num)]
        congr 1
        ring
    _ < 2 ^ (num.log2 : Int) / den := by gcongr
    _ ≤ (num : ℚ) / den := by gcongr

/-- The guess of `nearest` is right or one too great, and a test tells which. With the right
exponent a fraction has `fractionBits + 1` bits. -/
theorem bits_of_guess {num den : Nat} (hn : num ≠ 0) (hd : 0 < den) {guess : Int}
    (hguess : guess = (num.log2 : Int) - den.log2 - f.fractionBits) :
    let best := if (num : ℚ) / den / 2 ^ guess < 2 ^ f.fractionBits then guess - 1 else guess
    (num : ℚ) / den / 2 ^ best < 2 ^ (f.fractionBits + 1) ∧
      2 ^ f.fractionBits ≤ (num : ℚ) / den / 2 ^ best := by
  have hup : (num : ℚ) / den < 2 ^ (f.fractionBits + 1) * 2 ^ guess := by
    have hlt := div_lt_two_pow hn hd
    rw [show (num.log2 : Int) - den.log2 + 1 = (f.fractionBits + 1 : Nat) + guess by omega,
      zpow_add₀ (by norm_num), zpow_natCast] at hlt
    exact hlt
  have hdown : 2 ^ f.fractionBits * 2 ^ (guess - 1) < (num : ℚ) / den := by
    have hlt := two_pow_lt_div hn hd
    rw [show (num.log2 : Int) - den.log2 - 1 = f.fractionBits + (guess - 1) by omega,
      zpow_add₀ (by norm_num), zpow_natCast] at hlt
    exact hlt
  intro best
  rw [div_lt_iff₀ (by positivity), le_div_iff₀ (by positivity)]
  by_cases h : (num : ℚ) / den / 2 ^ guess < 2 ^ f.fractionBits
  · rw [show best = guess - 1 from if_pos h]
    refine ⟨?_, hdown.le⟩
    calc (num : ℚ) / den < 2 ^ f.fractionBits * 2 ^ guess := (div_lt_iff₀ (by positivity)).mp h
      _ = 2 ^ (f.fractionBits + 1) * 2 ^ (guess - 1) := by
        rw [zpow_sub_one₀ (by norm_num), pow_succ]
        ring
  · rw [show best = guess from if_neg h]
    exact ⟨hup, (le_div_iff₀ (by positivity)).mp (not_lt.mp h)⟩

/-- The exponent that `nearest` settles on: the fraction has at most `fractionBits + 1`
bits in units of it, and no fewer unless the exponent is the least. -/
theorem nearest_eq {num den : Nat} (hn : num ≠ 0) (hd : 0 < den) :
    ∃ i a b : Nat, 0 < b ∧ (a : ℚ) / b = (num : ℚ) / den / 2 ^ (f.leastExponent + i) ∧
      (a : ℚ) / b < 2 ^ (f.fractionBits + 1) ∧ (i = 0 ∨ 2 ^ f.fractionBits ≤ (a : ℚ) / b) ∧
      f.nearest num den = min f.infinity (i * 2 ^ f.fractionBits + roundDiv a b) := by
  let guess : Int := (num.log2 : Int) - den.log2 - f.fractionBits
  let isBelow : Bool :=
    decide ((scaled num den guess).1 / (scaled num den guess).2 < 2 ^ f.fractionBits)
  let best : Int := if isBelow then guess - 1 else guess
  let exponent : Int := max f.leastExponent best
  obtain ⟨i, hi⟩ : ∃ i : Nat, exponent = f.leastExponent + i :=
    ⟨(exponent - f.leastExponent).toNat, by omega⟩
  have hbelow : isBelow = true ↔ (num : ℚ) / den / 2 ^ guess < 2 ^ f.fractionBits := by
    rw [decide_eq_true_eq, scaled_div_lt_iff num hd]
    push_cast
    rfl
  obtain ⟨hlt, hge⟩ : (num : ℚ) / den / 2 ^ best < 2 ^ (f.fractionBits + 1) ∧
      2 ^ f.fractionBits ≤ (num : ℚ) / den / 2 ^ best := by
    rw [show best = _ from if_congr hbelow rfl rfl]
    exact bits_of_guess hn hd rfl
  obtain ⟨hpos, hratio⟩ := scaled_ratio num hd exponent
  refine ⟨i, (scaled num den exponent).1, (scaled num den exponent).2, hpos, ?_, ?_, ?_, ?_⟩
  · rw [hratio, hi]
  · rw [hratio]
    refine lt_of_le_of_lt ?_ hlt
    gcongr
    · norm_num
    · exact le_max_right _ _
  · rcases le_total f.leastExponent best with hle | hle
    · right
      rw [hratio, show exponent = best from max_eq_right hle]
      exact hge
    · left
      have : exponent = f.leastExponent := max_eq_left hle
      omega
  · rw [nearest, if_neg hn]
    have : (exponent - f.leastExponent).toNat = i := by omega
    exact congrArg (fun j => min f.infinity (j * 2 ^ f.fractionBits + _)) this

/-! ## 4. The nearest pattern -/

theorem nearest_le_infinity (num den : Nat) : f.nearest num den ≤ f.infinity := by
  unfold nearest
  split
  · exact Nat.zero_le _
  · exact Nat.min_le_left _ _

theorem even_iff_even_coefficient [NeZero f.fractionBits] (p : Nat) :
    Even p ↔ Even (f.coefficient p) := by
  have htwo : Even (2 ^ f.fractionBits) :=
    (Nat.even_pow' (NeZero.ne f.fractionBits)).mpr even_two
  conv_lhs => rw [← binade_mul_add_coefficient (f := f) p]
  rw [Nat.even_add]
  simp [htwo]

/-- A fraction goes to `p` or below iff it lies below the midpoint above `p`, or on it
when `p` is the even one of the two neighbours. -/
theorem nearest_le_iff [NeZero f.fractionBits] {num den p : Nat} (hd : 0 < den)
    (hp : p < f.infinity) :
    f.nearest num den ≤ p ↔
      (num : ℚ) / den < f.midpoint p ∨ (num : ℚ) / den = f.midpoint p ∧ Even p := by
  by_cases hn : num = 0
  · subst hn
    have hpos : (0 : ℚ) < f.midpoint p := lt_of_le_of_lt (value_nonneg p) (value_lt_midpoint p)
    simp [nearest, hpos]
  obtain ⟨i, a, b, hb, hratio, hlt, hge, heq⟩ := nearest_eq (f := f) hn hd
  have hq : roundDiv a b ≤ 2 ^ (f.fractionBits + 1) :=
    roundDiv_le_of_le hb (by exact_mod_cast hlt.le)
  have hq' : i = 0 ∨ 2 ^ f.fractionBits ≤ roundDiv a b :=
    hge.imp_right fun hge => le_roundDiv_of_le hb (by exact_mod_cast hge)
  have hmin : f.nearest num den ≤ p ↔ i * 2 ^ f.fractionBits + roundDiv a b ≤ p := by
    rw [heq]
    omega
  have hx : (num : ℚ) / den = (a : ℚ) / b * 2 ^ (f.leastExponent + i) := by
    rw [hratio, div_mul_cancel₀ _ (by positivity)]
  have hsum := binade_mul_add_coefficient (f := f) p
  have hUpos : (0 : ℚ) < 2 ^ (f.leastExponent + i) := by positivity
  rw [hmin]
  -- The fraction's binade lies below, at, or above that of the pattern.
  rcases Nat.lt_trichotomy i (f.binade p) with hij | hij | hij
  · have hle := Nat.mul_le_mul_right (2 ^ f.fractionBits) hij
    have hc := le_coefficient (f := f) (p := p) (by omega)
    rw [Nat.succ_mul] at hle
    rw [Nat.pow_succ] at hq
    refine iff_of_true (by omega) (.inl ?_)
    calc (num : ℚ) / den < 2 ^ (f.fractionBits + 1) * 2 ^ (f.leastExponent + i) := by
          rw [hx]
          gcongr
      _ ≤ f.value p := two_pow_le_value hij
      _ < f.midpoint p := value_lt_midpoint p
  · have hm : f.midpoint p = (f.coefficient p + 1 / 2) * 2 ^ (f.leastExponent + i) := by
      rw [midpoint, unit, ← hij, zpow_sub_one₀ (by norm_num)]
      ring
    rw [hx, hm, mul_lt_mul_iff_left₀ hUpos, mul_left_inj' hUpos.ne',
      even_iff_even_coefficient (f := f) p, ← roundDiv_le_iff a hb]
    rw [← hij] at hsum
    omega
  · have hle := Nat.mul_le_mul_right (2 ^ f.fractionBits) hij
    have hc := coefficient_lt (f := f) p
    rw [Nat.succ_mul] at hle
    rw [Nat.pow_succ] at hc
    have hlow : f.midpoint p < (num : ℚ) / den := by
      calc f.midpoint p < f.value (p + 1) := midpoint_lt_value p
        _ ≤ 2 ^ f.fractionBits * 2 ^ (f.leastExponent + i) := value_succ_le_two_pow hij
        _ ≤ (num : ℚ) / den := by
          rw [hx]
          gcongr
          exact hge.resolve_left (by omega)
    refine iff_of_false (by omega) ?_
    rintro (h | ⟨h, -⟩)
    · exact lt_asymm h hlow
    · exact hlow.ne' h

/-! ## 5. Rounding rational numbers -/

/-- The pattern nearest to a nonnegative rational number. -/
def round (f : Format) (x : ℚ) : Nat := f.nearest x.num.natAbs x.den

/-- A pattern at or below infinity is known by the patterns above it. -/
theorem eq_of_forall_le_iff {a b : Nat} (ha : a ≤ f.infinity) (hb : b ≤ f.infinity)
    (h : ∀ p < f.infinity, a ≤ p ↔ b ≤ p) : a = b := by
  rcases Nat.lt_trichotomy a b with hab | hab | hab
  · exact absurd ((h a (by omega)).mp le_rfl) (by omega)
  · exact hab
  · exact absurd ((h b (by omega)).mpr le_rfl) (by omega)

section

variable [NeZero f.fractionBits] {x y : ℚ} {p : Nat}

theorem round_le_infinity (f : Format) (x : ℚ) : f.round x ≤ f.infinity :=
  nearest_le_infinity _ _

theorem round_le_iff (hx : 0 ≤ x) (hp : p < f.infinity) :
    f.round x ≤ p ↔ x < f.midpoint p ∨ x = f.midpoint p ∧ Even p := by
  have hnum : (x.num.natAbs : ℚ) / x.den = x := by
    have : (x.num.natAbs : Int) = x.num := Int.natAbs_of_nonneg (Rat.num_nonneg.mpr hx)
    rw [← Int.cast_natCast, this, Rat.num_div_den]
  rw [round, nearest_le_iff x.den_pos hp, hnum]

/-- Only the number that a numerator and a denominator stand for matters. -/
theorem nearest_eq_round (num : Nat) {den : Nat} (hd : 0 < den) :
    f.nearest num den = f.round ((num : ℚ) / den) := by
  refine eq_of_forall_le_iff (f := f) (nearest_le_infinity _ _) (round_le_infinity _ _) ?_
  intro p hp
  rw [nearest_le_iff hd hp, round_le_iff (by positivity) hp]

theorem round_mono (hx : 0 ≤ x) (hxy : x ≤ y) : f.round x ≤ f.round y := by
  by_contra hlt
  have hp : f.round y < f.infinity := lt_of_lt_of_le (not_le.mp hlt) (round_le_infinity f x)
  apply hlt
  rw [round_le_iff hx hp]
  rcases (round_le_iff (hx.trans hxy) hp).mp le_rfl with h | ⟨h, heven⟩
  · exact .inl (lt_of_le_of_lt hxy h)
  · exact (lt_or_eq_of_le (h ▸ hxy)).imp_right fun h => ⟨h, heven⟩

theorem round_value (hp : p ≤ f.infinity) : f.round (f.value p) = p := by
  refine eq_of_forall_le_iff (f := f) (round_le_infinity _ _) hp fun q hq => ?_
  rw [round_le_iff (value_nonneg p) hq]
  constructor
  · intro h
    have hle : f.value p ≤ f.midpoint q := h.elim le_of_lt fun h => h.1.le
    have := lt_of_le_of_lt hle (midpoint_lt_value q)
    have := strictMono_value.lt_iff_lt.mp this
    omega
  · intro h
    exact .inl (lt_of_le_of_lt (strictMono_value.monotone h) (value_lt_midpoint q))

/-- A number that goes past a pattern lies at or above the midpoint before. -/
theorem midpoint_le_of_lt_round (hx : 0 ≤ x) (h : p < f.round x) : f.midpoint p ≤ x := by
  have hp : p < f.infinity := lt_of_lt_of_le h (round_le_infinity f x)
  have := mt (round_le_iff hx hp).mpr (not_le.mpr h)
  exact not_lt.mp fun hlt => this (.inl hlt)

theorem le_midpoint_of_round_le (hx : 0 ≤ x) (hp : p < f.infinity) (h : f.round x ≤ p) :
    x ≤ f.midpoint p :=
  ((round_le_iff hx hp).mp h).elim le_of_lt fun h => h.1.le

/-- Rounding moves a number by half a unit at most. -/
theorem abs_sub_value_round_le (hx : 0 ≤ x) (h : f.round x < f.infinity) :
    |x - f.value (f.round x)| ≤ 2 ^ (f.unit (f.round x) - 1) := by
  have hup := le_midpoint_of_round_le hx h le_rfl
  rw [midpoint_eq] at hup
  rw [abs_le]
  refine ⟨?_, by linarith⟩
  rcases Nat.eq_zero_or_pos (f.round x) with hzero | hpos
  · rw [hzero, value_zero]
    have : (0 : ℚ) < 2 ^ (f.unit 0 - 1) := by positivity
    linarith
  · obtain ⟨p, hp⟩ := Nat.exists_eq_add_of_lt hpos
    rw [Nat.zero_add] at hp
    have hlow : f.midpoint p ≤ x := midpoint_le_of_lt_round hx (by omega)
    rw [midpoint_eq', ← hp] at hlow
    have : (2 : ℚ) ^ (f.unit p - 1) ≤ 2 ^ (f.unit (f.round x) - 1) := by
      have := unit_mono (f := f) (show p ≤ f.round x by omega)
      gcongr
      norm_num
    linarith

/-- A number within half of the unit below a pattern goes to the pattern. -/
theorem round_eq_succ_of_abs_sub_lt (hx : 0 ≤ x) (hp : p + 1 < f.infinity)
    (h : |x - f.value (p + 1)| < 2 ^ (f.unit p - 1)) : f.round x = p + 1 := by
  obtain ⟨hlow, hup⟩ := abs_lt.mp h
  have hunit : (2 : ℚ) ^ (f.unit p - 1) ≤ 2 ^ (f.unit (p + 1) - 1) := by
    have := unit_mono (f := f) (show p ≤ p + 1 by omega)
    apply zpow_le_zpow_right₀
    · norm_num
    · omega
  refine le_antisymm ((round_le_iff hx hp).mpr (.inl ?_)) (not_lt.mp fun hlt => ?_)
  · rw [midpoint_eq]
    linarith
  · have hle : x ≤ f.midpoint p := le_midpoint_of_round_le hx (by omega) (by omega)
    rw [midpoint_eq'] at hle
    linarith

/-- A number within a quarter of a unit goes to the pattern, also where the unit of the
numbers below is half as great. -/
theorem round_eq_of_abs_sub_lt (hx : 0 ≤ x) (hp : p < f.infinity)
    (h : |x - f.value p| < 2 ^ (f.unit p - 2)) : f.round x = p := by
  rcases Nat.eq_zero_or_pos p with rfl | hpos
  · have hquarter : (2 : ℚ) ^ (f.unit 0 - 2) < 2 ^ (f.unit 0 - 1) := by
      apply zpow_lt_zpow_right₀ <;> norm_num
    refine Nat.le_zero.mp ((round_le_iff hx hp).mpr (.inl ?_))
    rw [midpoint_eq]
    linarith [(abs_lt.mp h).2]
  · obtain ⟨q, rfl⟩ := Nat.exists_eq_add_of_lt hpos
    rw [Nat.zero_add] at *
    refine round_eq_succ_of_abs_sub_lt hx hp (h.trans_le ?_)
    have := unit_succ_le (f := f) q
    apply zpow_le_zpow_right₀
    · norm_num
    · omega

end

/-- Every number of few enough bits is the number of a pattern, and the pattern is no
greater than the one that counts its units from the first binade of this unit. -/
theorem exists_value_eq {c i : Nat} (hc : c < 2 ^ (f.fractionBits + 1)) :
    ∃ p ≤ i * 2 ^ f.fractionBits + c, f.value p = c * 2 ^ (f.leastExponent + i) := by
  induction i generalizing c with
  | zero => exact ⟨_, le_rfl, value_eq hc.le (.inl rfl)⟩
  | succ i ih =>
    by_cases hge : 2 ^ f.fractionBits ≤ c
    · exact ⟨_, le_rfl, value_eq hc.le (.inr hge)⟩
    · obtain ⟨p, hle, hp⟩ := @ih (2 * c) (by rw [Nat.pow_succ]; omega)
      refine ⟨p, ?_, hp.trans ?_⟩
      · rw [Nat.add_mul]
        omega
      · push_cast
        rw [← add_assoc, zpow_add_one₀ (by norm_num)]
        ring

end ApiSurface.Number.Format
