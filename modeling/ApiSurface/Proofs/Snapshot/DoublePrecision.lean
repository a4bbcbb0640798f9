/-
ApiSurface.Proofs.Snapshot.DoublePrecision — double-precision constants in source text.

A double is shown in source text and in diagnostics with the same digits, those of the
shortest decimal that reads back. Both layouts keep the number that the digits stand for, so
the two texts denote the same rational number, and the double nearest to it is the one that was
shown (`real_double`). The text in source code has one of two shapes (`IsPlain`, `IsScientific`).
Which one it is follows from the size of the double, although it is chosen by comparing patterns
(`leastPlain_le_iff`, `lt_firstScientific_iff`).
-/
import ApiSurface.Proofs.Number.Shortest
import ApiSurface.Proofs.Snapshot.SinglePrecision

namespace ApiSurface.Literal

open Number
open Number.Format (double)
open Number.Decimal (shortest)

/-! ## 1. What a text denotes -/

/-- A number with a sign. -/
def signed (negative : Bool) (x : ℚ) : ℚ := if negative then -x else x

/-- The rational number that a numeral denotes. -/
def denoted? (s : String) : Option ℚ := do
  let (negative, body) := splitSign s.toList
  let (coeff, exponent) ← decimalPart? body
  return signed negative (Decimal.mk coeff exponent).value

/-- The double nearest to a rational number. -/
def nearestDouble (x : ℚ) : Double := Double.nearest (decide (x < 0)) x.num.natAbs x.den

/-- The characters of a sign. -/
def signChars (negative : Bool) : List Char := if negative then ['-'] else []

theorem denoted?_of_spells {chars : List Char} {x : ℚ} (h : Spells chars x) (negative : Bool) :
    denoted? (String.ofList (signChars negative ++ chars)) = some (signed negative x) := by
  obtain ⟨coeff, exponent, hreads, rfl⟩ := h.reads
  have hsign : splitSign (signChars negative ++ chars) = (negative, chars) := by
    cases negative
    · exact h.unsigned
    · rfl
  simp only [denoted?, String.toList_ofList, hsign, hreads, Option.bind_eq_bind,
    Option.bind_some, Option.pure_def]

theorem nearestDouble_signed {x : ℚ} (hx : 0 < x) (negative : Bool) :
    nearestDouble (signed negative x) =
      Double.ofPattern (double.withSign negative (double.round x)) := by
  cases negative
  · rw [signed, if_neg Bool.false_ne_true, nearestDouble, decide_eq_false hx.not_gt]
    rfl
  · have hneg : -x < 0 := by linarith
    rw [signed, if_pos rfl, nearestDouble, decide_eq_true hneg, Rat.neg_num, Int.natAbs_neg,
      Rat.neg_den]
    rfl

/-! ## 2. Shapes -/

/-- Digits, a point, and digits. -/
inductive IsPlain : List Char → Prop
  | intro {whole behind : List Char} : whole ≠ [] → (∀ c ∈ whole, isDigit c) → behind ≠ [] →
      (∀ c ∈ behind, isDigit c) → IsPlain (whole ++ '.' :: behind)

/-- The digits of a number, without a zero in front of others. -/
structure IsNumeral (ds : List Char) : Prop where
  ne_nil : ds ≠ []
  digits : ∀ c ∈ ds, isDigit c
  leading : ds = ['0'] ∨ ds.head? ≠ some '0'

/-- A digit other than zero, a point, digits that are a zero or do not end in one, and behind an
`E` the exponent with a minus sign or none. -/
inductive IsScientific : List Char → Prop
  | intro {first : Char} {behind exponent : List Char} (negative : Bool) : isDigit first →
      first ≠ '0' → behind ≠ [] → (∀ c ∈ behind, isDigit c) →
      (behind = ['0'] ∨ behind.getLast? ≠ some '0') → IsNumeral exponent →
      IsScientific (first :: '.' :: (behind ++ 'E' :: (signChars negative ++ exponent)))

/-- No text has both shapes, as only one of them has a letter. -/
theorem IsPlain.not_isScientific {chars : List Char} (h : IsPlain chars) :
    ¬ IsScientific chars := by
  have hletter : isDigit 'E' = false := rfl
  have hplain : 'E' ∉ chars := by
    obtain ⟨-, hwhole, -, hbehind⟩ := h
    simp only [List.mem_append, List.mem_cons, not_or]
    refine ⟨fun hc => ?_, by decide, fun hc => ?_⟩
    · exact Bool.false_ne_true (hletter.symm.trans (hwhole _ hc))
    · exact Bool.false_ne_true (hletter.symm.trans (hbehind _ hc))
  intro hscientific
  obtain ⟨⟩ := hscientific
  exact hplain (by simp)

theorem isPlain_plain {ds : List Char} (hne : ds ≠ []) (hds : ∀ c ∈ ds, isDigit c) (power : Int) :
    IsPlain (Layout.plain ds power) := by
  have hpadded (n : Nat) : ∀ c ∈ ds ++ List.replicate n '0', isDigit c := fun c hc =>
    (List.mem_append.mp hc).elim (hds c) isDigit_of_mem_zeros
  unfold Layout.plain
  split_ifs with hneg
  · refine @IsPlain.intro ['0'] _ (by simp) (by simp; rfl) (by simp [hne]) fun c hc => ?_
    exact (List.mem_append.mp hc).elim isDigit_of_mem_zeros (hds c)
  · dsimp only
    refine .intro ?_ (fun c hc => hpadded _ c (List.mem_of_mem_take hc)) ?_ ?_
    · rw [Ne, List.take_eq_nil_iff]
      simp [hne]
    · split_ifs with hempty
      · simp
      · exact List.isEmpty_eq_false_iff.mp (Bool.eq_false_iff.mpr hempty)
    · split_ifs
      · simp; rfl
      · exact fun c hc => hpadded _ c (List.mem_of_mem_drop hc)

theorem isNumeral_digits (n : Nat) : IsNumeral (digits n) where
  ne_nil := Nat.toDigits_ne_nil
  digits _ hc := isDigit_of_mem_digits hc
  leading := by
    rcases Nat.eq_zero_or_pos n with rfl | hn
    · exact .inl rfl
    · exact .inr (head?_digits_ne hn)

theorem isScientific_scientific {ds : List Char} (hne : ds ≠ []) (hds : ∀ c ∈ ds, isDigit c)
    (hhead : ds.head? ≠ some '0') (hlast : ds.getLast? ≠ some '0') (power : Int) :
    IsScientific (scientificLayout.scientific ds power) := by
  have hexponent : scientificLayout.exponentChars power =
      signChars (decide (power < 0)) ++ digits power.natAbs := by
    unfold Layout.exponentChars signChars
    by_cases hneg : power < 0
    · simp [hneg, scientificLayout]
    · simp [hneg, scientificLayout]
  have hnumeral := isNumeral_digits power.natAbs
  obtain ⟨d, rest, rfl⟩ := List.exists_cons_of_ne_nil hne
  rw [List.forall_mem_cons] at hds
  have hd : d ≠ '0' := fun h => hhead (by rw [h]; rfl)
  unfold Layout.scientific
  rw [hexponent]
  cases rest with
  | nil => exact .intro _ hds.1 hd (by simp) (by simp; rfl) (.inl rfl) hnumeral
  | cons d' rest =>
    rw [List.getLast?_cons_cons] at hlast
    exact .intro _ hds.1 hd (by simp) hds.2 (.inr hlast) hnumeral

/-! ## 3. Sizes -/

theorem value_leastPlain : double.value leastPlain = 4611686018427388 / 2 ^ 62 := by
  have hpattern : leastPlain = 0x3F50624DD2F1A9FC := by decide +kernel
  rw [hpattern, Format.value,
    show double.coefficient 0x3F50624DD2F1A9FC = 4611686018427388 from rfl,
    show double.unit 0x3F50624DD2F1A9FC = -62 from rfl]
  norm_num

theorem value_firstScientific : double.value firstScientific = 10 ^ 7 := by
  have hpattern : firstScientific = 0x416312D000000000 := by decide +kernel
  rw [hpattern, Format.value, show double.coefficient 0x416312D000000000 = 10 ^ 7 * 2 ^ 29 from rfl,
    show double.unit 0x416312D000000000 = -29 from rfl]
  norm_num

/-- The least pattern is the first one whose number is not below a thousandth. -/
theorem leastPlain_le_iff {p : Nat} (hp : p < double.infinity) :
    leastPlain ≤ p ↔ 1 / 1000 ≤ double.value p := by
  have hround : leastPlain = double.round (1 / 1000) := by
    rw [leastPlain, Format.nearest_eq_round _ (by decide)]
    norm_num
  constructor
  · intro hle
    have hvalue : double.value leastPlain ≤ double.value p :=
      Format.strictMono_value.monotone hle
    rw [value_leastPlain] at hvalue
    refine le_trans ?_ hvalue
    norm_num
  · intro hle
    rw [hround, ← Format.round_value hp.le]
    exact Format.round_mono (by norm_num) hle

theorem lt_firstScientific_iff {p : Nat} : p < firstScientific ↔ double.value p < 10 ^ 7 := by
  rw [← value_firstScientific]
  exact Format.strictMono_value.lt_iff_lt.symm

/-- The size of a double decides the shape of its text. -/
theorem shape_writeDecimal {p : Nat} (hp : p < double.infinity) {d : Decimal} (hd : 0 < d.coeff) :
    (IsPlain (writeDecimal p d) ↔ 1 / 1000 ≤ double.value p ∧ double.value p < 10 ^ 7) ∧
      (¬ IsPlain (writeDecimal p d) → IsScientific (writeDecimal p d)) := by
  have hne := Decimal.significant_ne_nil hd
  have hdigit : ∀ c ∈ d.significant, isDigit c := fun c hc => Decimal.isDigit_of_mem_significant hc
  rw [← leastPlain_le_iff hp, ← lt_firstScientific_iff, writeDecimal]
  split_ifs with hsize
  · rw [Bool.and_eq_true, decide_eq_true_eq, decide_eq_true_eq] at hsize
    have hplain := isPlain_plain hne hdigit d.power
    exact ⟨iff_of_true hplain hsize, fun h => absurd hplain h⟩
  · rw [Bool.and_eq_true, decide_eq_true_eq, decide_eq_true_eq] at hsize
    have hscientific := isScientific_scientific hne hdigit (Decimal.head?_significant_ne hd)
      d.getLast?_significant_ne d.power
    exact ⟨iff_of_false (fun h => h.not_isScientific hscientific) hsize, fun _ => hscientific⟩

/-! ## 4. The text of a constant -/

/-- A decimal that gives a double back, with as few digits as any other that does. -/
structure IsShortest (x : Double) (negative : Bool) (d : Decimal) : Prop where
  readsBack : nearestDouble (signed negative d.value) = x
  least : ∀ d' : Decimal, nearestDouble (signed negative d'.value) = x →
    d.significant.length ≤ (digits d'.coeff).length

/-- A finite double other than zero has a pattern and a sign, and both texts are made from the
shortest decimal for this pattern. -/
theorem exists_shown {x : Double} {negative : Bool} {coeff : Nat} {exponent : Int}
    (hdatum : x.datum = .finite negative coeff exponent) (hcoeff : coeff ≠ 0) :
    ∃ p num den, double.Represents p num den ∧ double.value p = coeff * 2 ^ exponent ∧
      x = Double.ofPattern (double.withSign negative p) ∧
      real false x = .ok (String.ofList (signChars negative ++
        writeDecimal p (shortest p num den))) ∧
      x.text = String.ofList (signChars negative ++ Layout.diagnostic.write
        (shortest p num den).significant (shortest p num den).power) := by
  have hbits : x.bits.toNat < 2 * double.signBit := x.bits.toNat_lt
  obtain ⟨p, hp, hpattern, rfl, rfl⟩ := Format.of_datum_eq_finite hbits hdatum
  have hmagnitude : x.bits.toNat % double.signBit = p := by
    rw [hpattern]
    exact Format.withSign_mod_signBit (hp.trans (Format.infinity_lt_signBit double)) negative
  have hpos : 0 < p := by
    refine Nat.pos_of_ne_zero fun hzero => hcoeff ?_
    rw [hzero]
    rfl
  obtain ⟨hden, hratio⟩ := ratio_eq (double.coefficient p) (double.unit p)
  refine ⟨p, _, _, ⟨hpos, hp, hden, hratio⟩, rfl, ?_, ?_, ?_⟩
  · rw [← hpattern, Double.ofPattern, UInt64.ofNat_toNat]
  · simp only [real, hdatum, if_neg hcoeff, hmagnitude]
    rfl
  · simp only [Double.text, hdatum, if_neg hcoeff, hmagnitude]
    rfl

/-- A number that comes to a double is positive and rounds to its pattern. -/
theorem round_of_nearestDouble {p : Nat} (hpos : 0 < p) (hp : p < double.infinity) {x : ℚ}
    (hx : 0 ≤ x) {negative : Bool}
    (h : nearestDouble (signed negative x) = Double.ofPattern (double.withSign negative p)) :
    double.round x = p := by
  have hsign : ∀ q ≤ double.infinity, double.withSign negative q < 2 * double.signBit := by
    intro q hq
    have := Format.infinity_lt_signBit double
    unfold Format.withSign
    split_ifs <;> omega
  rcases hx.eq_or_lt with rfl | hx
  · -- zero comes to the positive zero
    have hzero : nearestDouble (signed negative 0) = Double.ofPattern 0 := by
      cases negative <;> rfl
    have hwithSign := (Double.ofPattern_inj (by decide) (hsign p hp.le)).mp (hzero.symm.trans h)
    unfold Format.withSign at hwithSign
    split_ifs at hwithSign <;> omega
  · rw [nearestDouble_signed hx, Double.ofPattern_inj (hsign _ (Format.round_le_infinity _ _))
      (hsign p hp.le), Format.withSign_inj] at h
    exact h

theorem isShortest_shortest {p num den : Nat} (h : double.Represents p num den)
    (negative : Bool) :
    IsShortest (Double.ofPattern (double.withSign negative p)) negative (shortest p num den) := by
  have hround := round_shortest h
  have hpos : 0 < (shortest p num den).value := by
    have hcoeff := coeff_pos_of_round h.pos hround
    rw [Decimal.value]
    positivity
  refine ⟨?_, fun d' hd' => ?_⟩
  · rw [nearestDouble_signed hpos, hround]
  · exact length_significant_shortest_le h
      (round_of_nearestDouble h.pos h.finite d'.value_nonneg hd')

/-- The text denotes a number that gives the double back. -/
theorem exists_denoted {x : Double} {negative : Bool} {coeff : Nat} {exponent : Int}
    (hdatum : x.datum = .finite negative coeff exponent) (hcoeff : coeff ≠ 0) :
    ∃ s q, real false x = .ok s ∧ denoted? s = some q ∧ nearestDouble q = x := by
  obtain ⟨p, num, den, h, -, rfl, hreal, -⟩ := exists_shown hdatum hcoeff
  have hpos := coeff_pos_of_round h.pos (round_shortest h)
  exact ⟨_, _, hreal, denoted?_of_spells (spells_writeDecimal p hpos) negative,
    (isShortest_shortest h negative).readsBack⟩

theorem eq_of_real_eq {x y : Double} {negative negative' : Bool} {coeff coeff' : Nat}
    {exponent exponent' : Int} (hx : x.datum = .finite negative coeff exponent) (hcoeff : coeff ≠ 0)
    (hy : y.datum = .finite negative' coeff' exponent') (hcoeff' : coeff' ≠ 0)
    (h : real false y = real false x) : y = x := by
  obtain ⟨s, q, hreal, hdenoted, rfl⟩ := exists_denoted hx hcoeff
  obtain ⟨s', q', hreal', hdenoted', rfl⟩ := exists_denoted hy hcoeff'
  rw [hreal, hreal', Except.ok.injEq] at h
  rw [h, hdenoted, Option.some.injEq] at hdenoted'
  rw [hdenoted']

/-- A finite double other than zero is written as its sign and a decimal. Diagnostics show the
shortest decimal that gives the double back; the text in source code denotes the same number, and
no other such double has this text. From a thousandth up to ten millions it is plain, and
otherwise it is scientific. -/
theorem real_double {x : Double} {negative : Bool} {coeff : Nat} {exponent : Int}
    (hdatum : x.datum = .finite negative coeff exponent) (hcoeff : coeff ≠ 0) :
    (∀ descriptor, descriptor ≠ "F" → constant descriptor (.real x) = real false x) ∧
    ∃ body d, real false x = .ok (String.ofList (signChars negative ++ body)) ∧
      x.text = String.ofList (signChars negative ++
        Layout.diagnostic.write d.significant d.power) ∧ IsShortest x negative d ∧
      denoted? x.text = some (signed negative d.value) ∧
      denoted? (String.ofList (signChars negative ++ body)) = denoted? x.text ∧
      (IsPlain body ↔ 1 / 1000 ≤ (coeff : ℚ) * 2 ^ exponent ∧
        (coeff : ℚ) * 2 ^ exponent < 10 ^ 7) ∧
      (¬ IsPlain body → IsScientific body) ∧
      ∀ y negative' coeff' exponent', y.datum = .finite negative' coeff' exponent' → coeff' ≠ 0 →
        real false y = real false x → y = x := by
  obtain ⟨p, num, den, h, hvalue, hx, hreal, htext⟩ := exists_shown hdatum hcoeff
  have hpos := coeff_pos_of_round h.pos (round_shortest h)
  have hdenoted : denoted? x.text = some (signed negative (shortest p num den).value) := by
    rw [htext]
    exact denoted?_of_spells (Decimal.spells_write rfl rfl hpos) negative
  have hsame := denoted?_of_spells (spells_writeDecimal p hpos) negative
  obtain ⟨hplain, hscientific⟩ := shape_writeDecimal h.finite hpos
  rw [hvalue] at hplain
  refine ⟨fun descriptor hne => ?_, _, _, hreal, htext, ?_, hdenoted, hsame.trans hdenoted.symm,
    hplain, hscientific, fun y _ _ _ hy hcoeff' => eq_of_real_eq hdatum hcoeff hy hcoeff'⟩
  · simp only [constant, hne, decide_false]
  · rw [hx]
    exact isShortest_shortest h negative

/-- Minus one tenth is plain, and ten to the power of 22 is scientific. -/
theorem real_double_plain_and_scientific :
    (∃ body d, real false (Double.ofPattern 0xBFB999999999999A) =
        .ok (String.ofList (signChars true ++ body)) ∧
      IsShortest (Double.ofPattern 0xBFB999999999999A) true d ∧ IsPlain body) ∧
    ∃ body d, real false (Double.ofPattern 0x4480F0CF064DD592) =
        .ok (String.ofList (signChars false ++ body)) ∧
      IsShortest (Double.ofPattern 0x4480F0CF064DD592) false d ∧ IsScientific body := by
  have htenth : (Double.ofPattern 0xBFB999999999999A).datum =
      .finite true 7205759403792794 (-56) := by decide
  have hgreat : (Double.ofPattern 0x4480F0CF064DD592).datum =
      .finite false 4768371582031250 21 := by decide
  obtain ⟨-, body, d, hreal, -, hshortest, -, -, hplain, -⟩ := real_double htenth (by decide)
  obtain ⟨-, body', d', hreal', -, hshortest', -, -, hplain', hscientific, -⟩ :=
    real_double hgreat (by decide)
  refine ⟨⟨body, d, hreal, hshortest, hplain.mpr ?_⟩, body', d', hreal', hshortest',
    hscientific (mt hplain'.mp ?_)⟩
  · norm_num
  · norm_num

end ApiSurface.Literal
