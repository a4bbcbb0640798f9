/-
ApiSurface.Proofs.Number.Notation — written decimals read back.

Significant digits and the power of the first one are laid out around a point, with an
exponent or without. Every such text is digits, a point, digits and perhaps an exponent
(`decimalPart?_point`), so reading finds digits and an exponent of the same number: the
zeros that were cut or filled in are made up for by the exponent. `Spells` says that, and
also that the text starts with a digit, so that a sign before it is told apart.
-/
import ApiSurface.Number.Real
import ApiSurface.Proofs.Number.Grid

namespace ApiSurface.Number

/-! ## 1. Digits as numbers -/

theorem ofDigits_append (l m : List Char) :
    ofDigits (l ++ m) = ofDigits l * 10 ^ m.length + ofDigits m := by
  calc ofDigits (l ++ m) = Nat.ofDigitChars 10 m (ofDigits l) := Nat.ofDigitChars_append 0
    _ = 10 ^ m.length * ofDigits l + ofDigits m := Nat.ofDigitChars_eq_ofDigitChars_zero
    _ = ofDigits l * 10 ^ m.length + ofDigits m := by rw [Nat.mul_comm]

theorem ofDigits_zeros (n : Nat) : ofDigits (List.replicate n '0') = 0 :=
  (Nat.ofDigitChars_replicate_zero (b := 10) (n := n)).trans (Nat.mul_zero _)

theorem ofDigits_digits (n : Nat) : ofDigits (digits n) = n :=
  Nat.ofDigitChars_ten_toDigits

theorem isDigit_of_mem_digits {c : Char} {n : Nat} (h : c ∈ digits n) : isDigit c = true := by
  have := Nat.isDigit_of_mem_toDigits (by decide) (by decide) h
  simp only [Char.isDigit, Bool.and_eq_true, decide_eq_true_eq] at this
  simp only [isDigit, Bool.and_eq_true, decide_eq_true_eq]
  exact this

/-- No positive number is written with a zero in front. -/
theorem head?_digits_ne {n : Nat} (hn : 0 < n) : (digits n).head? ≠ some '0' := by
  induction n using Nat.strongRecOn with
  | _ n ih =>
    rcases Nat.lt_or_ge n 10 with hlt | hge
    · have hsmall : ∀ n < 10, 0 < n → (digits n).head? ≠ some '0' := by decide
      exact hsmall n hlt hn
    · have hsplit : digits (n / 10) ++ digits (n % 10) = digits n := by
        have happend := Nat.toDigits_append_toDigits (b := 10) (n := n / 10) (d := n % 10)
          (by decide) (by omega) (Nat.mod_lt _ (by decide))
        rwa [Nat.div_add_mod] at happend
      have hne : digits (n / 10) ≠ [] := Nat.toDigits_ne_nil
      rw [← hsplit, List.head?_append_of_ne_nil _ hne]
      exact ih (n / 10) (by omega) (by omega)

theorem isDigit_of_mem_zeros {c : Char} {n : Nat} (h : c ∈ List.replicate n '0') :
    isDigit c = true := by
  rw [List.eq_of_mem_replicate h]
  rfl

/-! ## 2. Reading -/

theorem span_digits {ds : List Char} (rest : List Char) (hds : ∀ c ∈ ds, isDigit c)
    (hrest : ∀ c ∈ rest.head?, isDigit c = false) :
    (ds ++ rest).takeWhile isDigit = ds ∧ (ds ++ rest).dropWhile isDigit = rest := by
  rw [List.takeWhile_append_of_pos hds, List.dropWhile_append_of_pos hds]
  cases rest with
  | nil => simp
  | cons c rest =>
    have hc := hrest c rfl
    simp [hc]

/-- Digits around a point, and an exponent part, are read as one number. -/
theorem decimalPart?_point {whole behind tail : List Char} {x : Int} (hne : whole ≠ [])
    (hwhole : ∀ c ∈ whole, isDigit c) (hbehind : ∀ c ∈ behind, isDigit c)
    (htail : ∀ c ∈ tail.head?, isDigit c = false) (hx : exponentPart? tail = some x) :
    decimalPart? (whole ++ '.' :: (behind ++ tail))
      = some (ofDigits (whole ++ behind), x - behind.length) := by
  obtain ⟨htake, hdrop⟩ := span_digits ('.' :: (behind ++ tail)) hwhole (by simp; rfl)
  obtain ⟨htake', hdrop'⟩ := span_digits tail hbehind htail
  simp only [decimalPart?, htake, hdrop, htake', hdrop', hx]
  simp [hne]

/-- Digits without a point are read as a whole number. -/
theorem decimalPart?_whole {whole tail : List Char} {x : Int} (hne : whole ≠ [])
    (hwhole : ∀ c ∈ whole, isDigit c) (htail : ∀ c ∈ tail.head?, isDigit c = false ∧ c ≠ '.')
    (hx : exponentPart? tail = some x) :
    decimalPart? (whole ++ tail) = some (ofDigits whole, x) := by
  obtain ⟨htake, hdrop⟩ := span_digits tail hwhole fun c hc => (htail c hc).1
  cases tail with
  | nil =>
    simp only [decimalPart?, htake, hdrop, hx]
    simp [hne]
  | cons c tail =>
    have hc : c ≠ '.' := (htail c rfl).2
    simp only [decimalPart?, htake, hdrop]
    split
    · next heq => exact absurd (List.cons.inj heq).1 hc
    · simp [hne, hx]

theorem splitSign_of_isDigit {c : Char} (hc : isDigit c = true) (rest : List Char) :
    splitSign (c :: rest) = (false, c :: rest) := by
  have hminus : c ≠ '-' := by
    rintro rfl
    cases hc
  have hplus : c ≠ '+' := by
    rintro rfl
    cases hc
  simp [splitSign, hminus, hplus]

/-- An unsigned text that reads as a number. -/
structure Spells (chars : List Char) (x : ℚ) : Prop where
  unsigned : splitSign chars = (false, chars)
  reads : ∃ coeff exponent, decimalPart? chars = some (coeff, exponent) ∧
    (Decimal.mk coeff exponent).value = x

theorem Spells.of_point (whole behind tail : List Char) {power : Int} {x : ℚ} (hne : whole ≠ [])
    (hwhole : ∀ c ∈ whole, isDigit c) (hbehind : ∀ c ∈ behind, isDigit c)
    (htail : ∀ c ∈ tail.head?, isDigit c = false) (hpower : exponentPart? tail = some power)
    (hx : (ofDigits (whole ++ behind) : ℚ) * 10 ^ (power - behind.length) = x) :
    Spells (whole ++ '.' :: (behind ++ tail)) x where
  unsigned := by
    obtain ⟨c, rest, rfl⟩ := List.exists_cons_of_ne_nil hne
    exact splitSign_of_isDigit (hwhole c (by simp)) _
  reads := ⟨_, _, decimalPart?_point hne hwhole hbehind htail hpower, hx⟩

/-- Without a point, digits and an exponent part are enough. -/
theorem Spells.of_whole (whole tail : List Char) {power : Int} {x : ℚ} (hne : whole ≠ [])
    (hwhole : ∀ c ∈ whole, isDigit c) (htail : ∀ c ∈ tail.head?, isDigit c = false ∧ c ≠ '.')
    (hpower : exponentPart? tail = some power) (hx : (ofDigits whole : ℚ) * 10 ^ power = x) :
    Spells (whole ++ tail) x where
  unsigned := by
    obtain ⟨c, rest, rfl⟩ := List.exists_cons_of_ne_nil hne
    exact splitSign_of_isDigit (hwhole c (by simp)) _
  reads := ⟨_, _, decimalPart?_whole hne hwhole htail hpower, hx⟩

/-- A mark, a sign and digits are an exponent part. -/
theorem exponentPart?_cons {mark : Char} (hmark : lowerAscii mark = 'e') {rest body : List Char}
    {negative : Bool} (hsplit : splitSign rest = (negative, body)) (hne : body ≠ [])
    (hbody : ∀ c ∈ body, isDigit c) :
    exponentPart? (mark :: rest) =
      some (if negative then -(ofDigits body : Int) else (ofDigits body : Int)) := by
  have hempty := List.isEmpty_eq_false_iff.mpr hne
  have hall : body.all isDigit = true := List.all_eq_true.mpr hbody
  simp only [exponentPart?, hmark, if_true, hsplit, hempty, hall, Bool.not_true, Bool.or_self,
    Bool.false_eq_true, if_false]

/-- A mark and an exponent are read back. -/
theorem exponentPart?_exponentChars (l : Layout) (hmark : lowerAscii l.mark = 'e')
    (power : Int) : exponentPart? (l.mark :: l.exponentChars power) = some power := by
  have hdigit : ∀ c ∈ digits power.natAbs, isDigit c := fun c hc => isDigit_of_mem_digits hc
  have hne : digits power.natAbs ≠ [] := Nat.toDigits_ne_nil
  -- a long exponent is filled up with a zero
  obtain ⟨filled, hfilled, hfilled_ne, hfilled_digit, hvalue⟩ : ∃ filled,
      (if (digits power.natAbs).length < 2 then '0' :: digits power.natAbs
        else digits power.natAbs) = filled ∧ filled ≠ [] ∧ (∀ c ∈ filled, isDigit c) ∧
      ofDigits filled = power.natAbs := by
    split_ifs
    · exact ⟨_, rfl, by simp, List.forall_mem_cons.mpr ⟨rfl, hdigit⟩, ofDigits_digits _⟩
    · exact ⟨_, rfl, hne, hdigit, ofDigits_digits _⟩
  have hminus (body : List Char) : splitSign ('-' :: body) = (true, body) := rfl
  have hplus (body : List Char) : splitSign ('+' :: body) = (false, body) := rfl
  unfold Layout.exponentChars
  simp only [hfilled]
  split_ifs with hlong hneg hneg
  · rw [exponentPart?_cons hmark (hminus _) hfilled_ne hfilled_digit, hvalue, if_pos rfl]
    exact congrArg some (by omega)
  · rw [exponentPart?_cons hmark (hplus _) hfilled_ne hfilled_digit, hvalue,
      if_neg Bool.false_ne_true]
    exact congrArg some (by omega)
  · rw [exponentPart?_cons hmark (hminus _) hne hdigit, ofDigits_digits, if_pos rfl]
    exact congrArg some (by omega)
  · obtain ⟨c, rest, hcons⟩ := List.exists_cons_of_ne_nil hne
    have hsplit := splitSign_of_isDigit (hdigit c (hcons ▸ List.mem_cons_self)) rest
    rw [← hcons] at hsplit
    rw [exponentPart?_cons hmark hsplit hne hdigit, ofDigits_digits, if_neg Bool.false_ne_true]
    exact congrArg some (by omega)

/-! ## 3. Layouts -/

/-- Zeros in front of the digits move them behind the point. -/
theorem spells_leading {ds : List Char} (hds : ∀ c ∈ ds, isDigit c) {power : Int}
    (hpower : power < 0) :
    Spells (Layout.plain ds power) (ofDigits ds * 10 ^ (power + 1 - ds.length)) := by
  obtain ⟨k, rfl⟩ : ∃ k : Nat, power = -(k + 1) := ⟨(-power - 1).toNat, by omega⟩
  have hdigit : ∀ c ∈ List.replicate k '0' ++ ds, isDigit c := fun c hc =>
    (List.mem_append.mp hc).elim isDigit_of_mem_zeros (hds c)
  have hvalue : (ofDigits (['0'] ++ (List.replicate k '0' ++ ds)) : ℚ)
        * 10 ^ (0 - ((List.replicate k '0' ++ ds).length : Int))
      = ofDigits ds * 10 ^ (-((k : Int) + 1) + 1 - ds.length) := by
    rw [ofDigits_append, ofDigits_append, ofDigits_zeros, List.length_append,
      List.length_replicate, show ofDigits ['0'] = 0 from rfl]
    push_cast
    rw [show -((k : Int) + 1) + 1 - ds.length = 0 - (k + ds.length) by ring]
    simp
  have h := Spells.of_point ['0'] _ [] (by simp) (by simp; rfl) hdigit (by simp) rfl hvalue
  rw [Layout.plain, if_pos hpower, show (-(-((k : Int) + 1))).toNat - 1 = k by omega]
  rwa [List.append_nil] at h

/-- Zeros behind the digits fill them up to the point. -/
theorem spells_trailing {ds : List Char} (hne : ds ≠ []) (hds : ∀ c ∈ ds, isDigit c) (k : Nat) :
    Spells (Layout.plain ds k) (ofDigits ds * 10 ^ ((k : Int) + 1 - ds.length)) := by
  have hlen : 0 < ds.length := List.length_pos_iff.mpr hne
  have hpadded : ∀ c ∈ ds ++ List.replicate (k + 1 - ds.length) '0', isDigit c := fun c hc =>
    (List.mem_append.mp hc).elim (hds c) isDigit_of_mem_zeros
  have hvalue : (ofDigits (ds ++ List.replicate (k + 1 - ds.length) '0') : ℚ)
      = ofDigits ds * 10 ^ (k + 1 - ds.length) := by
    rw [ofDigits_append, ofDigits_zeros, List.length_replicate]
    push_cast
    ring
  have hplen : (ds ++ List.replicate (k + 1 - ds.length) '0').length
      = ds.length + (k + 1 - ds.length) := by
    rw [List.length_append, List.length_replicate]
  rw [Layout.plain, if_neg (by omega), Int.toNat_natCast]
  dsimp only
  generalize ds ++ List.replicate (k + 1 - ds.length) '0' = padded at *
  have hwhole : padded.take (k + 1) ≠ [] := by
    rw [← List.length_pos_iff, List.length_take]
    omega
  have hwhole' : ∀ c ∈ padded.take (k + 1), isDigit c :=
    fun c hc => hpadded c (List.mem_of_mem_take hc)
  split
  · -- nothing is left behind the point, where a zero is put
    rename_i hempty
    have hle : padded.length ≤ k + 1 := List.drop_eq_nil_iff.mp (List.isEmpty_iff.mp hempty)
    have h := Spells.of_point _ ['0'] []
      (x := ofDigits ds * 10 ^ ((k : Int) + 1 - ds.length)) hwhole hwhole' (by simp; rfl)
      (by simp) rfl ?_
    · rwa [List.append_nil] at h
    · obtain ⟨z, hz⟩ : ∃ z, k + 1 = ds.length + z := ⟨k + 1 - ds.length, by omega⟩
      rw [List.take_of_length_le hle, ofDigits_append]
      push_cast
      rw [hvalue, show ofDigits ['0'] = 0 from rfl, show k + 1 - ds.length = z by omega,
        show (k : Int) + 1 - ds.length = z by omega]
      norm_num
      ring
  · -- digits are left behind the point, so that nothing was filled in
    rename_i hsome
    have hlt : k + 1 < padded.length :=
      not_le.mp fun hge => hsome (List.isEmpty_iff.mpr (List.drop_eq_nil_iff.mpr hge))
    have h := Spells.of_point _ (padded.drop (k + 1)) []
      (x := ofDigits ds * 10 ^ ((k : Int) + 1 - ds.length)) hwhole hwhole'
      (fun c hc => hpadded c (List.mem_of_mem_drop hc)) (by simp) rfl ?_
    · rwa [List.append_nil] at h
    · have hpad : k + 1 - ds.length = 0 := by omega
      rw [List.take_append_drop, hvalue, hpad, pow_zero, mul_one, List.length_drop, hplen,
        show (0 : Int) - (ds.length + (k + 1 - ds.length) - (k + 1) : Nat) = k + 1 - ds.length by
          omega]

/-- Without an exponent, zeros are filled in before the digits or behind them. -/
theorem spells_plain {ds : List Char} (hne : ds ≠ []) (hds : ∀ c ∈ ds, isDigit c) (power : Int) :
    Spells (Layout.plain ds power) (ofDigits ds * 10 ^ (power + 1 - ds.length)) := by
  rcases lt_or_ge power 0 with hneg | hnonneg
  · exact spells_leading hds hneg
  · obtain ⟨k, rfl⟩ := Int.eq_ofNat_of_zero_le hnonneg
    exact spells_trailing hne hds k

/-- With an exponent, the first digit stands before the point. A layout may leave out the point
behind a single digit. -/
theorem spells_scientific {l : Layout} (hmark : lowerAscii l.mark = 'e')
    (hdigit : isDigit l.mark = false) {ds : List Char} (hne : ds ≠ [])
    (hds : ∀ c ∈ ds, isDigit c) (power : Int) :
    Spells (l.scientific ds power) (ofDigits ds * 10 ^ (power + 1 - ds.length)) := by
  obtain ⟨d, rest, rfl⟩ := List.exists_cons_of_ne_nil hne
  have hexponent := exponentPart?_exponentChars l hmark power
  have hnotpoint : l.mark ≠ '.' := by
    intro heq
    rw [heq] at hmark
    revert hmark
    decide
  have htail : ∀ c ∈ (l.mark :: l.exponentChars power).head?, isDigit c = false ∧ c ≠ '.' := by
    simpa using ⟨hdigit, hnotpoint⟩
  have hd : ∀ c ∈ [d], isDigit c := by
    simpa using hds d (by simp)
  unfold Layout.scientific
  cases rest with
  | nil =>
    cases hpoint : l.pointInMantissa with
    | true =>
      have h := Spells.of_point _ ['0'] _ (by simp) hd (by simp; rfl)
        (fun c hc => (htail c hc).1) hexponent (x := ofDigits [d] * 10 ^ (power + 1 - 1)) ?_
      · simpa [hpoint] using h
      · rw [ofDigits_append, show ofDigits ['0'] = 0 from rfl, zpow_sub₀ (by norm_num)]
        push_cast
        simp
        ring
    | false =>
      have h := Spells.of_whole _ _ (by simp) hd htail hexponent
        (x := ofDigits [d] * 10 ^ (power + 1 - 1)) (by simp)
      simpa [hpoint] using h
  | cons d' rest =>
    have h := Spells.of_point _ (d' :: rest) _ (by simp) hd
      (fun c hc => hds c (List.mem_cons_of_mem _ hc)) (fun c hc => (htail c hc).1) hexponent
      (x := ofDigits (d :: d' :: rest) * 10 ^ (power + 1 - (d :: d' :: rest).length)) ?_
    · simpa using h
    · rw [List.singleton_append, show power + 1 - (d :: d' :: rest).length
        = power - (d' :: rest).length by simp]

/-! ## 4. Significant digits -/

/-- Cutting zeros at the end is made up for by a power of ten. -/
theorem stripZeros_append (l : List Char) :
    ∃ n, l = Decimal.stripZeros l ++ List.replicate n '0' := by
  refine ⟨(l.reverse.takeWhile (· == '0')).length, ?_⟩
  have hzeros : l.reverse.takeWhile (· == '0')
      = List.replicate (l.reverse.takeWhile (· == '0')).length '0' := by
    refine List.eq_replicate_of_mem fun c hc => ?_
    simpa using List.all_eq_true.mp List.all_takeWhile c hc
  have h := congrArg List.reverse (List.takeWhile_append_dropWhile (p := (· == '0')) (l := l.reverse))
  rw [List.reverse_reverse, List.reverse_append, hzeros, List.reverse_replicate] at h
  exact h.symm

namespace Decimal

variable {d : Decimal}

theorem isDigit_of_mem_significant {c : Char} (h : c ∈ d.significant) : isDigit c = true := by
  obtain ⟨n, hn⟩ := stripZeros_append (digits d.coeff)
  exact isDigit_of_mem_digits (hn ▸ List.mem_append_left _ h)

theorem significant_ne_nil (hd : 0 < d.coeff) : d.significant ≠ [] := by
  intro hnil
  obtain ⟨n, hn⟩ := stripZeros_append (digits d.coeff)
  rw [← significant, hnil, List.nil_append] at hn
  have := ofDigits_digits d.coeff
  rw [hn, ofDigits_zeros] at this
  omega

/-- The first significant digit is the first digit. -/
theorem head?_significant_ne (hd : 0 < d.coeff) : d.significant.head? ≠ some '0' := by
  obtain ⟨n, hn⟩ := stripZeros_append (digits d.coeff)
  rw [← significant] at hn
  have hhead := head?_digits_ne hd
  rwa [hn, List.head?_append_of_ne_nil _ (significant_ne_nil hd)] at hhead

/-- Zeros at the end are not significant. -/
theorem getLast?_significant_ne (d : Decimal) : d.significant.getLast? ≠ some '0' := by
  have hhead := List.head?_dropWhile_not (· == '0') (digits d.coeff).reverse
  rw [significant, stripZeros, List.getLast?_reverse]
  intro hzero
  rw [hzero] at hhead
  cases hhead

/-- The significant digits and their power are the whole decimal. -/
theorem significant_value (d : Decimal) :
    (ofDigits d.significant : ℚ) * 10 ^ (d.power + 1 - d.significant.length) = d.value := by
  obtain ⟨n, hn⟩ := stripZeros_append (digits d.coeff)
  rw [← significant] at hn
  have hcoeff := ofDigits_digits d.coeff
  rw [hn, ofDigits_append, ofDigits_zeros, List.length_replicate, Nat.add_zero] at hcoeff
  rw [power, hn, List.length_append, List.length_replicate, value, ← hcoeff]
  push_cast
  rw [show d.exponent + (d.significant.length + n) - 1 + 1 - d.significant.length
    = d.exponent + n by ring, zpow_add₀ (by norm_num), zpow_natCast]
  ring

theorem spells_plain (hd : 0 < d.coeff) : Spells (Layout.plain d.significant d.power) d.value := by
  have hdigit : ∀ c ∈ d.significant, isDigit c := fun c hc => isDigit_of_mem_significant hc
  rw [← d.significant_value]
  exact Number.spells_plain (significant_ne_nil hd) hdigit d.power

theorem spells_scientific {l : Layout} (hmark : lowerAscii l.mark = 'e')
    (hmarkDigit : isDigit l.mark = false) (hd : 0 < d.coeff) :
    Spells (l.scientific d.significant d.power) d.value := by
  have hdigit : ∀ c ∈ d.significant, isDigit c := fun c hc => isDigit_of_mem_significant hc
  rw [← d.significant_value]
  exact Number.spells_scientific hmark hmarkDigit (significant_ne_nil hd) hdigit d.power

/-- What a layout makes of a decimal spells it. -/
theorem spells_write {l : Layout} (hmark : lowerAscii l.mark = 'e')
    (hmarkDigit : isDigit l.mark = false) (hd : 0 < d.coeff) :
    Spells (l.write d.significant d.power) d.value := by
  unfold Layout.write
  split_ifs
  · exact spells_plain hd
  · exact spells_scientific hmark hmarkDigit hd

end Decimal

end ApiSurface.Number
