/-
ApiSurface.Proofs.Snapshot.SinglePrecision — single-precision constants in source text.

A single-precision constant is shown with the fewest digits that give it back when they
are read as a double and narrowed. `readSingle?` reads such a text the way a compiler
does: at once, to the single-precision number nearest to the decimal. The two readings
decide what a text is worth, and they differ twice (`real_single`). Above 34025 * 10 ^ 34
the grid of four digits overflows when it is narrowed, which is a fault and not a grid
that fails, so these constants have no text. And one constant of either sign has a text
that reads as its neighbour. All others have a text that reads as themselves.
-/
import ApiSurface.Snapshot.Literal
import ApiSurface.Proofs.Number.Notation
import ApiSurface.Proofs.Number.Shortening

namespace ApiSurface.Literal

open Number
open Number.Format (single double widened narrowed)
open Number.Decimal (rounded)

/-! ## 1. Reading at once -/

/-- The single-precision pattern nearest to the decimal that a literal spells. -/
def readSingle? (s : String) : Option Nat := do
  let (negative, body) := splitSign s.toList
  let (coeff, exponent) ← decimalPart? body
  let (num, den) := Decimal.ratio ⟨coeff, exponent⟩
  return single.withSign negative (single.nearest num den)

/-- A sign before a text is read, and the rest is rounded. -/
theorem readSingle?_of_spells {chars : List Char} {x : ℚ} (h : Spells chars x) (negative : Bool) :
    readSingle? (String.ofList ((if negative then ['-'] else []) ++ chars))
      = some (single.withSign negative (single.round x)) := by
  obtain ⟨coeff, exponent, hreads, rfl⟩ := h.reads
  obtain ⟨hden, hratio⟩ := Decimal.ratio_eq ⟨coeff, exponent⟩
  have hsign : splitSign ((if negative then ['-'] else []) ++ chars) = (negative, chars) := by
    cases negative
    · exact h.unsigned
    · rfl
  simp only [readSingle?, String.toList_ofList, hsign, hreads, Option.bind_eq_bind,
    Option.bind_some, Format.nearest_eq_round _ hden, hratio, Option.pure_def]

/-- What is written for a decimal spells it. -/
theorem spells_writeDecimal (pattern : Nat) {d : Decimal} (hd : 0 < d.coeff) :
    Spells (writeDecimal pattern d) d.value := by
  unfold writeDecimal
  split_ifs
  · exact Decimal.spells_plain hd
  · exact Decimal.spells_scientific rfl rfl hd

/-! ## 2. Narrowing candidates -/

variable {p num den : Nat}

theorem narrowsTo_rounded (h : IsSingle p num den) (n : Nat) :
    narrowsTo (Double.ofPattern (widened p)) (rounded num den n) =
      if narrowed (rounded num den n).value = single.infinity then
        .error (.singleTooLarge (Double.ofPattern (widened p)))
      else .ok (decide (narrowed (rounded num den n).value = p)) := by
  obtain ⟨hread, hlt⟩ := h.ofDecimal_rounded n
  have hsingle : (Double.ofPattern (double.round (rounded num den n).value)).toSingle? =
      if narrowed (rounded num den n).value = single.infinity then none
      else some (narrowed (rounded num den n).value) := Double.toSingle?_ofPattern hlt
  have hle := Format.round_le_infinity single (Format.viaDouble (rounded num den n).value)
  simp only [narrowsTo, hread, hsingle]
  rw [← narrowed] at hle
  generalize narrowed (rounded num den n).value = q at *
  by_cases hinf : q = single.infinity
  · simp only [if_pos hinf]
  · have hq : q < single.infinity := lt_of_le_of_ne hle hinf
    have hpattern {r : Nat} (hr : r < single.infinity) : widened r < 2 * double.signBit := by
      have := Format.widened_lt hr
      have := Format.infinity_lt_signBit double
      omega
    have hwiden := Double.ofSingle_withSign hq false
    rw [Format.withSign_false, Format.withSign_false] at hwiden
    simp only [if_neg hinf, hwiden, beq_eq_decide,
      Double.ofPattern_inj (hpattern hq) (hpattern h.finite), Format.widened_inj hq h.finite]

/-- The first candidate that brings the number back is chosen if none overflows. -/
theorem exists_firstNarrowing (h : IsSingle p num den) (ns : List Nat)
    (hfinite : ∀ n ∈ ns, narrowed (rounded num den n).value < single.infinity)
    (hback : ∃ n ∈ ns, narrowed (rounded num den n).value = p) :
    ∃ n ∈ ns, narrowed (rounded num den n).value = p ∧
      firstNarrowing (Double.ofPattern (widened p)) (ns.map (rounded num den))
        = .ok (some (rounded num den n)) := by
  induction ns with
  | nil =>
    obtain ⟨n, hn, -⟩ := hback
    cases hn
  | cons m ns ih =>
    have hm := narrowsTo_rounded h m
    rw [if_neg (hfinite m List.mem_cons_self).ne] at hm
    rw [List.map_cons, firstNarrowing, hm]
    by_cases heq : narrowed (rounded num den m).value = p
    · refine ⟨m, List.mem_cons_self, heq, ?_⟩
      rw [decide_eq_true heq]
      rfl
    · obtain ⟨n, hn, hback⟩ := hback
      have hne : n ≠ m := fun hnm => heq (hnm ▸ hback)
      obtain ⟨k, hk, hback, hfirst⟩ := ih (fun n hn => hfinite n (List.mem_cons_of_mem _ hn))
        ⟨n, (List.mem_cons.mp hn).resolve_left hne, hback⟩
      refine ⟨k, List.mem_cons_of_mem _ hk, hback, ?_⟩
      rw [decide_eq_false heq, ← hfirst]
      rfl

/-- Up to the bound, the digits shown are those of some grid that brings the number back. -/
theorem exists_decimalOf (h : IsSingle p num den) (hle : single.value p ≤ 34025 * 10 ^ 34) :
    ∃ n, narrowed (rounded num den n).value = p ∧
      decimalOf true (widened p) num den = .ok (rounded num den n) := by
  obtain ⟨n, -, hback, hfirst⟩ := exists_firstNarrowing h (List.range' 1 9)
    (fun n _ => h.narrowed_lt_infinity hle n) ⟨9, by decide, h.narrowed_nine⟩
  refine ⟨n, hback, ?_⟩
  simp only [decimalOf, if_true, hfirst]
  rfl

/-- Above the bound, the grid of four digits overflows before any grid succeeds. -/
theorem decimalOf_eq_error (h : IsSingle p num den) (hlt : 34025 * 10 ^ 34 < single.value p) :
    decimalOf true (widened p) num den
      = .error (.singleTooLarge (Double.ofPattern (widened p))) := by
  obtain ⟨h₁, h₂, h₃, h₄⟩ := h.rounded_greatest hlt
  have hfails {n : Nat} (hn : (rounded num den n).value ≤ 34 * 10 ^ 37) :
      narrowsTo (Double.ofPattern (widened p)) (rounded num den n) = .ok false := by
    have hself := IsSingle.narrowed_lt_self hlt (Decimal.value_nonneg _) hn
    rw [narrowsTo_rounded h, if_neg (hself.trans h.finite).ne, decide_eq_false hself.ne]
  have hone := hfails (n := 1) (by rw [h₁, Decimal.value]; norm_num)
  have htwo := hfails (n := 2) (by rw [h₂, Decimal.value]; norm_num)
  have hthree := hfails (n := 3) (by rw [h₃, Decimal.value]; norm_num)
  have hfour := narrowsTo_rounded h 4
  rw [if_pos (by rw [h₄]; exact IsSingle.narrowed_four)] at hfour
  have hcandidates : (List.range' 1 9).map (rounded num den)
      = rounded num den 1 :: rounded num den 2 :: rounded num den 3 :: rounded num den 4 ::
        (List.range' 5 5).map (rounded num den) := rfl
  simp only [decimalOf, if_true, hcandidates, firstNarrowing, hone, htwo, hthree, hfour]
  rfl

/-! ## 3. The text of a constant -/

/-- The numerator and the denominator that a widened pattern is shown with. -/
def shownRatio (p : Nat) : Nat × Nat :=
  ratio (double.coefficient (widened p)) (double.unit (widened p))

theorem isSingle_shownRatio (hpos : 0 < p) (hp : p < single.infinity) :
    IsSingle p (shownRatio p).1 (shownRatio p).2 := by
  obtain ⟨hden, hratio⟩ := ratio_eq (double.coefficient (widened p)) (double.unit (widened p))
  exact ⟨hpos, hp, hden, hratio.trans (Format.value_widened hp)⟩

/-- A constant is its sign and the decimal of its magnitude. -/
theorem real_ofSingle (hpos : 0 < p) (hp : p < single.infinity) (negative : Bool) :
    real true (Double.ofSingle (single.withSign negative p)) = do
      let d ← decimalOf true (widened p) (shownRatio p).1 (shownRatio p).2
      return String.ofList ((if negative then ['-'] else []) ++ writeDecimal (widened p) d) := by
  have hwidened := Format.widened_lt hp
  have hne : double.coefficient (widened p) ≠ 0 := by
    refine (Format.coefficient_pos (Nat.pos_of_ne_zero fun hzero => ?_)).ne'
    have hvalue := Format.value_widened hp
    rw [hzero, Format.value_zero] at hvalue
    exact (isSingle_shownRatio hpos hp).represents.value_pos.ne hvalue
  have hpattern : (Double.ofPattern (double.withSign negative (widened p))).bits.toNat
      % double.signBit = widened p := by
    rw [Double.toNat_ofPattern (Double.withSign_lt hwidened negative)]
    exact Format.withSign_mod_signBit (hwidened.trans (Format.infinity_lt_signBit double)) negative
  rw [Double.ofSingle_withSign hp]
  simp only [real, Double.datum_ofPattern hwidened, if_neg hne, hpattern]
  rfl

/-! ## 4. The near miss -/

theorem widened_nearMiss : widened IsSingle.nearMiss = 0x3ab5c87fc0000000 := by
  obtain ⟨hden, hratio⟩ := ratio_eq (single.coefficient IsSingle.nearMiss)
    (single.unit IsSingle.nearMiss)
  rw [widened, Format.value, ← hratio, ← Format.nearest_eq_round _ hden]
  decide +kernel

/-- Seven digits bring the near miss back. -/
theorem decimalOf_nearMiss :
    decimalOf true (widened IsSingle.nearMiss) (shownRatio IsSingle.nearMiss).1
      (shownRatio IsSingle.nearMiss).2 = .ok ⟨7038531, -32⟩ := by
  have h : (decimalOf true 0x3ab5c87fc0000000
      (ratio (double.coefficient 0x3ab5c87fc0000000) (double.unit 0x3ab5c87fc0000000)).1
      (ratio (double.coefficient 0x3ab5c87fc0000000) (double.unit 0x3ab5c87fc0000000)).2).toOption
        = some ⟨7038531, -32⟩ := by
    decide +kernel
  rw [shownRatio, widened_nearMiss]
  generalize decimalOf true 0x3ab5c87fc0000000 _ _ = shown at h
  cases shown with
  | error e => cases h
  | ok d => exact congrArg Except.ok (Option.some.inj h)

/-- Read at once, they are nearest to the number below it. -/
theorem round_nearMiss :
    single.round (Decimal.value ⟨7038531, -32⟩) = IsSingle.nearMiss - 1 := by
  obtain ⟨hden, hratio⟩ := Decimal.ratio_eq ⟨7038531, -32⟩
  rw [← hratio, ← Format.nearest_eq_round _ hden]
  decide +kernel

/-! ## 5. All constants -/

/-- A finite constant of single precision, not zero, is a fault if its magnitude is above
34025 * 10 ^ 34. Otherwise it has a text, and the text reads as the constant unless this is
the near miss, of either sign. -/
theorem real_single {bits coeff : Nat} {negative : Bool} {exponent : Int} (hbits : bits < 2 ^ 32)
    (hdatum : single.datum bits = .finite negative coeff exponent) (hcoeff : coeff ≠ 0) :
    constant "F" (.real (Double.ofSingle bits)) = real true (Double.ofSingle bits) ∧
    (34025 * 10 ^ 34 < (coeff : ℚ) * 2 ^ exponent →
      real true (Double.ofSingle bits)
        = .error (.singleTooLarge (Double.ofSingle (bits % 2 ^ 31)))) ∧
    ((coeff : ℚ) * 2 ^ exponent ≤ 34025 * 10 ^ 34 →
      ∃ s, real true (Double.ofSingle bits) = .ok s ∧
        (readSingle? s = some bits ↔ bits % 2 ^ 31 ≠ 0x15ae43fe)) := by
  have hsignBit : single.signBit = 2 ^ 31 := by decide
  obtain ⟨p, hp, rfl, rfl, rfl⟩ := Format.of_datum_eq_finite (by omega) hdatum
  have hmagnitude : single.withSign negative p % 2 ^ 31 = p :=
    hsignBit ▸ Format.withSign_mod_signBit (hp.trans (Format.infinity_lt_signBit single)) negative
  have hpos : 0 < p := by
    refine Nat.pos_of_ne_zero fun hzero => hcoeff ?_
    rw [hzero]
    rfl
  have h := isSingle_shownRatio hpos hp
  have hunsigned := Double.ofSingle_withSign hp false
  rw [Format.withSign_false, Format.withSign_false] at hunsigned
  refine ⟨rfl, ?_⟩
  rw [hmagnitude, hunsigned, real_ofSingle hpos hp]
  constructor
  · intro hlt
    rw [decimalOf_eq_error h hlt]
    rfl
  · intro hle
    obtain ⟨n, hback, hshown⟩ := exists_decimalOf h hle
    have hread := readSingle?_of_spells
      (spells_writeDecimal (widened p) (h.coeff_rounded_pos n)) negative
    refine ⟨_, by rw [hshown]; rfl, ?_⟩
    rw [hread, Option.some_inj, Format.withSign_inj]
    constructor
    · rintro hround rfl
      have hmiss := hshown.symm.trans decimalOf_nearMiss
      rw [Except.ok.inj hmiss, round_nearMiss] at hround
      exact absurd hround (by decide)
    · intro hne
      exact h.round_eq_of_narrowed hne hback

/-- The text of the number nearest to one tenth reads as this number. -/
theorem real_single_tenth :
    ∃ s, real true (Double.ofSingle 0x3dcccccd) = .ok s ∧ readSingle? s = some 0x3dcccccd := by
  have hdatum : single.datum 0x3dcccccd = .finite false 13421773 (-27) := by decide
  obtain ⟨s, hs, hreads⟩ := (real_single (by decide) hdatum (by decide)).2.2 (by norm_num)
  exact ⟨s, hs, hreads.mpr (by decide)⟩

end ApiSurface.Literal
