/-
ApiSurface.Proofs.Number.Neighbours — decimals that nearly are midpoints.

A number with few decimal digits and a number with few bits can be equal, but they are
hardly ever close and different. How close they come is a question about fractions with
small denominators near `2 ^ k / 10 ^ e`, and adjacent fractions answer it: between `a/b`
and `c/d` with `b * c = a * d + 1` every fraction has a denominator of `b + d` at least.
So three fractions in a row leave one candidate only (`Isolates.eq_of_between`).

For every unit of single precision `found` searches such a row around `2 ^ k / 10 ^ e`,
where `10 ^ e` is the least power above two units. The search needs no proof: what it
finds is checked for all units at once (`settled_all`). One near miss is left.
-/
import ApiSurface.Proofs.Number.Grid
import Mathlib.Tactic.LinearCombination
import Mathlib.Tactic.Zify

namespace ApiSurface.Number

/-! ## 1. Adjacent fractions -/

/-- A fraction, reduced or not. -/
structure Fraction where
  num : Nat
  den : Nat

namespace Fraction

/-- The order of fractions, without division. -/
abbrev Below (x y : Fraction) : Prop := x.num * y.den < y.num * x.den

/-- Adjacent fractions differ by one over the product of their denominators. -/
abbrev Adjacent (x y : Fraction) : Prop := x.den * y.num = x.num * y.den + 1

variable {w x y z : Fraction} {bound : Nat}

/-- No fraction between adjacent ones has a smaller denominator than both together. -/
theorem Adjacent.add_den_le (h : Adjacent x y) (hl : Below x w) (hr : Below w y) :
    x.den + y.den ≤ w.den := by
  obtain ⟨s, hs⟩ := Nat.exists_eq_add_of_lt hl
  obtain ⟨t, ht⟩ := Nat.exists_eq_add_of_lt hr
  have hw : w.den = x.den * (t + 1) + y.den * (s + 1) := by
    zify at h hs ht ⊢
    linear_combination (y.den : ℤ) * hs + (x.den : ℤ) * ht - (w.den : ℤ) * h
  rw [hw]
  exact Nat.add_le_add (Nat.le_mul_of_pos_right _ (Nat.succ_pos t))
    (Nat.le_mul_of_pos_right _ (Nat.succ_pos s))

/-- Three fractions in a row, between which all others have large denominators. -/
structure Isolates (bound : Nat) (x y z : Fraction) : Prop where
  left : Adjacent x y
  right : Adjacent y z
  left_den : bound ≤ x.den + y.den
  right_den : bound ≤ y.den + z.den

instance : Decidable (Isolates bound x y z) :=
  decidable_of_iff (Adjacent x y ∧ Adjacent y z ∧ bound ≤ x.den + y.den ∧ bound ≤ y.den + z.den)
    ⟨fun ⟨a, b, c, d⟩ => ⟨a, b, c, d⟩, fun ⟨a, b, c, d⟩ => ⟨a, b, c, d⟩⟩

/-- The middle one is the only fraction between the outer two with a small denominator. -/
theorem Isolates.eq_of_between (h : Isolates bound x y z) (hl : Below x w) (hr : Below w z)
    (hw : w.den < bound) : w.num * y.den = y.num * w.den := by
  rcases Nat.lt_trichotomy (w.num * y.den) (y.num * w.den) with hlt | heq | hgt
  · have := h.left.add_den_le hl hlt
    have := h.left_den
    omega
  · exact heq
  · have := h.right.add_den_le hgt hr
    have := h.right_den
    omega

theorem Below.trans_le (h : Below x y) (hw : 0 < w.den)
    (hle : y.num * w.den ≤ w.num * y.den) : Below x w := by
  refine Nat.lt_of_mul_lt_mul_right (a := y.den) ?_
  calc x.num * w.den * y.den = x.num * y.den * w.den := Nat.mul_right_comm _ _ _
    _ < y.num * x.den * w.den := Nat.mul_lt_mul_of_pos_right h hw
    _ = y.num * w.den * x.den := Nat.mul_right_comm _ _ _
    _ ≤ w.num * y.den * x.den := Nat.mul_le_mul_right _ hle
    _ = w.num * x.den * y.den := Nat.mul_right_comm _ _ _

theorem Below.le_trans (h : Below y z) (hw : 0 < w.den)
    (hle : w.num * y.den ≤ y.num * w.den) : Below w z := by
  refine Nat.lt_of_mul_lt_mul_right (a := y.den) ?_
  calc w.num * z.den * y.den = w.num * y.den * z.den := Nat.mul_right_comm _ _ _
    _ ≤ y.num * w.den * z.den := Nat.mul_le_mul_right _ hle
    _ = y.num * z.den * w.den := Nat.mul_right_comm _ _ _
    _ < z.num * y.den * w.den := Nat.mul_lt_mul_of_pos_right h hw
    _ = z.num * w.den * y.den := Nat.mul_right_comm _ _ _

/-! ## 2. Finding a row -/

/-- Adjacent fractions around a target, brought together by mediants as long as their
denominators stay below the bound: the left one below the target, the right one not. -/
def around (bound : Nat) (target : Fraction) : Nat → Fraction → Fraction → Fraction × Fraction
  | 0, x, y => (x, y)
  | fuel + 1, x, y =>
    let low (x : Fraction) := target.num * x.den - x.num * target.den
    let high (y : Fraction) := y.num * target.den - target.num * y.den
    let s := min ((bound - 1 - x.den) / y.den)
      (if high y = 0 then bound else (low x - 1) / high y)
    let x : Fraction := ⟨x.num + s * y.num, x.den + s * y.den⟩
    let t := min ((bound - 1 - y.den) / x.den) (high y / low x)
    around bound target fuel x ⟨y.num + t * x.num, y.den + t * x.den⟩

/-- The fraction that comes after two adjacent ones. -/
def following (bound : Nat) (x y : Fraction) : Fraction :=
  let k := (bound - 1 + x.den) / y.den
  ⟨k * y.num - x.num, k * y.den - x.den⟩

end Fraction

/-! ## 3. The units of single precision -/

open Fraction

/-- The least exponent, from `10 ^ (-52)` on, of a power of ten above `2 ^ (j + 1 - 150)`. -/
def stepOf (j : Nat) : Nat := Nat.log 10 (2 ^ (j + 1) * 10 ^ 52 / 2 ^ 150) + 1

/-- The unit `2 ^ (j - 150)` and the step `10 ^ (stepOf j - 52)` over one denominator. -/
def unitPart (j : Nat) : Nat := 2 ^ j * 10 ^ 52

@[inherit_doc unitPart]
def stepPart (j : Nat) : Nat := 10 ^ stepOf j * 2 ^ 150

/-- The least fraction that a double could take for the quotient of unit and step. -/
def lowEnd (j : Nat) : Fraction := ⟨unitPart j * (2 ^ 53 - 1), stepPart j * 2 ^ 53⟩

/-- The greatest fraction that a double could take for it. -/
def highEnd (j : Nat) : Fraction := ⟨unitPart j * (2 ^ 53 + 1), stepPart j * 2 ^ 53⟩

/-- The first two fractions of the row around the quotient, by the search from below. -/
def found (j : Nat) : Fraction × Fraction :=
  around (2 ^ 25) (lowEnd j) 16 ⟨0, 1⟩ ⟨1, 1⟩

/-- The one near miss: `7038531 * 10 ^ (-32)` and `22841339 * 2 ^ (-108)`. -/
def IsNearMiss (j : Nat) (y : Fraction) : Prop :=
  j = 42 ∧ y.num = 7038531 ∧ y.den = 22841339

/-- A row around the quotient whose middle lies past the ends, is exact, or is the near miss. -/
structure Settled (j : Nat) (x y z : Fraction) : Prop where
  isolates : Isolates (2 ^ 25) x y z
  low : Below x (lowEnd j)
  high : Below (highEnd j) z
  middle : Below (highEnd j) y ∨ y.num * stepPart j = unitPart j * y.den ∨ IsNearMiss j y

instance (j : Nat) (y : Fraction) : Decidable (IsNearMiss j y) :=
  inferInstanceAs (Decidable (_ ∧ _ ∧ _))

instance (j : Nat) (x y z : Fraction) : Decidable (Settled j x y z) :=
  decidable_of_iff (Isolates (2 ^ 25) x y z ∧ Below x (lowEnd j) ∧ Below (highEnd j) z ∧
      (Below (highEnd j) y ∨ y.num * stepPart j = unitPart j * y.den ∨ IsNearMiss j y))
    ⟨fun ⟨a, b, c, d⟩ => ⟨a, b, c, d⟩, fun ⟨a, b, c, d⟩ => ⟨a, b, c, d⟩⟩

/-- Every unit of single precision has its settled row. -/
theorem settled_all :
    ∀ j < 254, Settled j (found j).1 (found j).2 (following (2 ^ 25) (found j).1 (found j).2) := by
  decide +kernel

/-- Unless it is the near miss, a fraction with a small denominator that a double could take
for the quotient of unit and step is this quotient. -/
theorem eq_or_of_between {j : Nat} (hj : j < 254) {w : Fraction} (hpos : 0 < w.den)
    (hw : w.den < 2 ^ 25)
    (hlow : (lowEnd j).num * w.den ≤ w.num * (lowEnd j).den)
    (hhigh : w.num * (highEnd j).den ≤ (highEnd j).num * w.den) :
    w.num * stepPart j = unitPart j * w.den ∨
      j = 42 ∧ w.num * 22841339 = 7038531 * w.den := by
  have hrow := settled_all j hj
  generalize (found j).1 = x at hrow
  generalize (found j).2 = y at hrow
  have heq := hrow.isolates.eq_of_between (hrow.low.trans_le hpos hlow)
    (hrow.high.le_trans hpos hhigh) hw
  have hden : 0 < y.den := by
    have hright := hrow.isolates.right
    refine Nat.pos_of_ne_zero fun hzero => ?_
    rw [Adjacent, hzero, Nat.zero_mul] at hright
    omega
  rcases hrow.middle with hout | hexact | ⟨rfl, hnum, hden'⟩
  · exact absurd heq (hout.le_trans hpos hhigh).ne
  · left
    refine Nat.eq_of_mul_eq_mul_right hden ?_
    calc w.num * stepPart j * y.den = w.num * y.den * stepPart j := Nat.mul_right_comm _ _ _
      _ = y.num * stepPart j * w.den := by rw [heq, Nat.mul_right_comm]
      _ = unitPart j * w.den * y.den := by rw [hexact, Nat.mul_right_comm]
  · right
    rw [hnum, hden'] at heq
    exact ⟨rfl, heq⟩

/-! ## 4. Decimals near midpoints -/

theorem stepOf_le (j : Nat) : 10 ^ (stepOf j - 1) * 2 ^ 150 ≤ 2 ^ (j + 1) * 10 ^ 52 := by
  rw [← Nat.le_div_iff_mul_le (Nat.two_pow_pos _), stepOf, Nat.add_sub_cancel]
  refine Nat.pow_log_le_self 10 ?_
  have : 2 ^ 150 ≤ 2 ^ (j + 1) * 10 ^ 52 := by
    calc 2 ^ 150 ≤ 2 ^ (0 + 1) * 10 ^ 52 := by norm_num
      _ ≤ 2 ^ (j + 1) * 10 ^ 52 := by gcongr <;> omega
  exact (Nat.div_pos this (Nat.two_pow_pos _)).ne'

/-- A power of ten above two units is the step at least. -/
theorem stepOf_sub_lt {j : Nat} {e : Int} (h : (2 : ℚ) ^ ((j : Int) - 150 + 1) < 10 ^ e) :
    (stepOf j : Int) - 53 < e := by
  have hle := stepOf_le j
  rw [stepOf, Nat.add_sub_cancel] at hle
  rw [← zpow_lt_zpow_iff_right₀ (show (1 : ℚ) < 10 by norm_num)]
  refine lt_of_le_of_lt ?_ h
  rw [stepOf]
  push_cast
  rw [show ∀ i : Int, i + 1 - 53 = i - 52 by intro i; ring,
    show (j : Int) - 150 + 1 = (j + 1 : Nat) - 150 by push_cast; ring,
    zpow_sub₀ (by norm_num), zpow_sub₀ (by norm_num), div_le_div_iff₀ (by positivity)
    (by positivity)]
  exact_mod_cast hle

theorem cast_mul_stepPart (c r j : Nat) :
    ((c * 10 ^ r : Nat) : ℚ) * stepPart j
      = c * 10 ^ ((stepOf j : Int) - 52 + r) * (10 ^ 52 * 2 ^ 150) := by
  rw [zpow_add₀ (by norm_num), zpow_sub₀ (by norm_num), stepPart]
  push_cast
  rw [zpow_natCast, zpow_natCast]
  ring

theorem cast_unitPart_mul (j m : Nat) :
    (unitPart j : ℚ) * m = m * 2 ^ ((j : Int) - 150) * (10 ^ 52 * 2 ^ 150) := by
  rw [zpow_sub₀ (by norm_num), unitPart]
  push_cast
  rw [zpow_natCast]
  ring

/-- Steps that a double takes for units have a quotient between the two ends. -/
theorem between_of_near {n m j : Nat}
    (h : |(n : ℚ) * stepPart j - unitPart j * m| * 2 ^ 53 ≤ unitPart j * m) :
    (lowEnd j).num * m ≤ n * (lowEnd j).den ∧ n * (highEnd j).den ≤ (highEnd j).num * m := by
  obtain ⟨hlow, hhigh⟩ := abs_le.mp ((le_div_iff₀ (by positivity)).mpr h)
  have hpred : ((2 ^ 53 - 1 : Nat) : ℚ) = 2 ^ 53 - 1 := by norm_num
  rw [lowEnd, highEnd, ← Nat.cast_le (α := ℚ), ← Nat.cast_le (α := ℚ), Nat.cast_mul, Nat.cast_mul,
    hpred]
  push_cast
  constructor <;> linarith

/-- A decimal on a grid coarser than two units of `2 ^ k`, and so near to `m` of these units
that a double takes it for them, is equal to them, or it is the near miss. -/
theorem eq_or_of_near {c m : Nat} {e k : Int} (hk : -150 ≤ k) (hk' : k ≤ 103) (hpos : 0 < m)
    (hm : m < 2 ^ 25) (hstep : (2 : ℚ) ^ (k + 1) < 10 ^ e)
    (hnear : |(c : ℚ) * 10 ^ e - m * 2 ^ k| * 2 ^ 53 ≤ m * 2 ^ k) :
    (c : ℚ) * 10 ^ e = m * 2 ^ k ∨ k = -108 ∧ m = 22841339 := by
  obtain ⟨j, rfl⟩ : ∃ j : Nat, k = j - 150 := ⟨(k + 150).toNat, by omega⟩
  have he := stepOf_sub_lt hstep
  obtain ⟨r, rfl⟩ : ∃ r : Nat, e = stepOf j - 52 + r := ⟨(e - stepOf j + 52).toNat, by omega⟩
  have hsteps := cast_mul_stepPart c r j
  have hunits := cast_unitPart_mul j m
  have hscale : (0 : ℚ) < 10 ^ 52 * 2 ^ 150 := by positivity
  generalize c * 10 ^ r = n at hsteps
  generalize (10 : ℚ) ^ 52 * 2 ^ 150 = scale at *
  obtain ⟨hlow, hhigh⟩ := between_of_near (n := n) (m := m) (j := j) (by
    rw [hsteps, hunits, ← sub_mul, abs_mul, abs_of_pos hscale, mul_right_comm]
    exact mul_le_mul_of_nonneg_right hnear hscale.le)
  rcases eq_or_of_between (w := ⟨n, m⟩) (by omega) hpos hm hlow hhigh with hexact | ⟨rfl, hmiss⟩
  · left
    refine mul_right_cancel₀ hscale.ne' ?_
    rw [← hsteps, ← hunits]
    exact_mod_cast hexact
  · refine .inr ⟨by norm_num, ?_⟩
    have hcoprime : Nat.Coprime 22841339 7038531 := by decide
    obtain ⟨t, rfl⟩ := hcoprime.dvd_of_dvd_mul_left ⟨n, by rw [← hmiss, Nat.mul_comm]⟩
    omega

end ApiSurface.Number
