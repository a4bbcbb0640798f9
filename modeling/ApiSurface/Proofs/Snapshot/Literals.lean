/-
ApiSurface.Proofs.Snapshot.Literals — literals are printable.

A literal is printable whatever constant it stands for (`Literal.printable_constant`). A
code point of a text that is not printable, a surrogate above all, is given by the
hexadecimal digits of its units. Numbers have digits, signs, points and marks, and what
is shown as in diagnostics has its texts in quotes.
-/
import ApiSurface.Proofs.Number.Notation
import ApiSurface.Proofs.Outcome
import ApiSurface.Proofs.Text.Alphabet
import ApiSurface.Snapshot.Literal

namespace ApiSurface

open Alphabet

/-! ## 1. Numbers -/

namespace Number

theorem printable_of_isDigit {c : Char} (h : isDigit c = true) : printable.has c := by
  rw [isDigit, Bool.and_eq_true, decide_eq_true_eq, decide_eq_true_eq] at h
  have hl : 48 ≤ c.toNat := h.1
  have hu : c.toNat ≤ 57 := h.2
  exact Text.isPrintable_of_ascii (by omega) (by omega)

theorem printable_digits (n : Nat) : printable.Spells (digits n) :=
  fun _ hc => printable_of_isDigit (isDigit_of_mem_digits hc)

theorem printable_zeros (n : Nat) : printable.Spells (List.replicate n '0') :=
  fun _ hc => printable_of_isDigit (isDigit_of_mem_zeros hc)

theorem printable_significant (d : Decimal) : printable.Spells d.significant :=
  fun _ hc => printable_of_isDigit (Decimal.isDigit_of_mem_significant hc)

theorem printable_integerText (n : Int) : printable.Writes (integerText n) := by
  rw [integerText, writes_ofList]
  cases n with
  | ofNat n => exact printable_digits n
  | negSucc n => exact spells_cons.mpr ⟨by decide, printable_digits (n + 1)⟩

/-- The sign in front of a number. -/
theorem printable_sign (negative : Bool) : printable.Spells (if negative then ['-'] else []) :=
  spells_ite (by decide) (by decide)

namespace Layout

variable {ds : List Char}

theorem printable_plain (hds : printable.Spells ds) (power : Int) :
    printable.Spells (plain ds power) := by
  have hfilled : ∀ n, printable.Spells (ds ++ List.replicate n '0') := fun n =>
    spells_append.mpr ⟨hds, printable_zeros n⟩
  unfold plain
  refine spells_ite ?_ ?_
  · rw [spells_cons, spells_cons, spells_append]
    exact ⟨by decide, by decide, printable_zeros _, hds⟩
  · dsimp only
    rw [spells_append, spells_cons]
    exact ⟨(hfilled _).subset (List.take_subset _ _), by decide,
      spells_ite (by decide) ((hfilled _).subset (List.drop_subset _ _))⟩

theorem printable_exponentChars (l : Layout) (power : Int) :
    printable.Spells (l.exponentChars power) := by
  have hbody := printable_digits power.natAbs
  have hminus : printable.has '-' := by decide
  have hplus : printable.has '+' := by decide
  have hzero : printable.has '0' := by decide
  unfold exponentChars
  dsimp only
  split_ifs
  all_goals simp [hbody, hminus, hplus, hzero]

theorem printable_scientific {l : Layout} (hmark : printable.has l.mark)
    (hds : printable.Spells ds) (power : Int) : printable.Spells (l.scientific ds power) := by
  unfold scientific
  dsimp only
  rw [spells_append, spells_cons]
  refine ⟨spells_ite ?_ ?_, hmark, printable_exponentChars l power⟩
  · exact spells_append.mpr ⟨hds, spells_ite (by decide) (by decide)⟩
  · rw [spells_append, spells_cons]
    exact ⟨hds.subset (List.take_subset _ _), by decide, hds.subset (List.drop_subset _ _)⟩

end Layout

theorem printable_write {l : Layout} (hmark : printable.has l.mark) (d : Decimal) :
    printable.Spells (l.write d.significant d.power) :=
  spells_ite (Layout.printable_plain (printable_significant d) _)
    (Layout.printable_scientific hmark (printable_significant d) _)

theorem printable_text (x : Double) : printable.Writes x.text := by
  unfold Double.text
  split
  · decide
  · split_ifs <;> decide
  · next negative coeff exponent _ =>
    by_cases hcoeff : coeff = 0
    · rw [if_pos hcoeff, writes_ofList, spells_append]
      exact ⟨printable_sign negative, by decide⟩
    · rw [if_neg hcoeff, writes_ofList, spells_append]
      exact ⟨printable_sign negative, printable_write (by decide) _⟩

end Number

/-! ## 2. Values in diagnostics -/

namespace Value

theorem printable_shownBoolean (b : Bool) : printable.Writes (shownBoolean b) := by
  cases b <;> decide

theorem printable_commaSeparated {words : List String} (h : ∀ w ∈ words, printable.Writes w) :
    printable.Writes (commaSeparated words) := writes_intercalate (by decide) h

mutual

/-- A value is printable as diagnostics show it. -/
theorem printable_shown : ∀ v : Value, printable.Writes v.shown
  | .nothing => by
    change printable.Writes "None"
    decide
  | .boolean b => printable_shownBoolean b
  | .integer n => Number.printable_integerText n
  | .real x => Number.printable_text x
  | .text t => printable_quoted t
  | .list items => by
    change printable.Writes ("[" ++ commaSeparated (shownItems items) ++ "]")
    rw [writes_append, writes_append]
    exact ⟨⟨by decide, printable_commaSeparated (printable_shownItems items)⟩, by decide⟩
  | .enumConstant type constant => by
    change printable.Writes ("EnumConstant(type_name=" ++ Text.quotedString type ++ ", const_name="
      ++ Text.quotedString constant ++ ")")
    simp only [writes_append]
    exact ⟨⟨⟨⟨by decide, printable_quoted _⟩, by decide⟩, printable_quoted _⟩, by decide⟩
  | .classLiteral descriptor => by
    change printable.Writes ("ClassLiteral(descriptor=" ++ Text.quotedString descriptor ++ ")")
    simp only [writes_append]
    exact ⟨⟨by decide, printable_quoted _⟩, by decide⟩
  | .annotationLiteral type isVisible values => by
    have hvalues := printable_commaSeparated (printable_shownValues values)
    change printable.Writes ("AnnotationInfo(type_name=" ++ Text.quotedString type
      ++ ", values=\x7b" ++ commaSeparated (shownValues values) ++ "\x7d, visible="
      ++ shownBoolean isVisible ++ ")")
    simp only [writes_append]
    exact ⟨⟨⟨⟨⟨⟨by decide, printable_quoted _⟩, by decide⟩, hvalues⟩, by decide⟩,
      printable_shownBoolean isVisible⟩, by decide⟩

theorem printable_shownItems : ∀ items : List Value, ∀ w ∈ shownItems items, printable.Writes w
  | [] => nofun
  | v :: rest => by
    change ∀ w ∈ v.shown :: shownItems rest, printable.Writes w
    rw [List.forall_mem_cons]
    exact ⟨printable_shown v, printable_shownItems rest⟩

theorem printable_shownValues :
    ∀ values : List (String × Value), ∀ w ∈ shownValues values, printable.Writes w
  | [] => nofun
  | (name, v) :: rest => by
    change ∀ w ∈ (Text.quotedString name ++ ": " ++ v.shown) :: shownValues rest,
      printable.Writes w
    rw [List.forall_mem_cons, writes_append, writes_append]
    exact ⟨⟨⟨printable_quoted _, by decide⟩, printable_shown v⟩, printable_shownValues rest⟩

end

end Value

/-! ## 3. Constants -/

namespace Literal

theorem printable_quoteOf (descriptor : String) : printable.has (quoteOf descriptor) := by
  unfold quoteOf
  split_ifs <;> decide

theorem printable_controlLetter {n : Nat} {letter : Char} (h : controlLetter? n = some letter) :
    printable.has letter := by
  unfold controlLetter? at h
  split at h
  all_goals
    cases h
    try decide

/-- A code point is printable as a literal spells it: it is printable itself, or stands
behind a backslash, or is given by the digits of its units. -/
theorem printable_escapedPoint {quote : Char} (hq : printable.has quote) (p : CodePoint) :
    printable.Spells (escapedPoint quote p) := by
  have hslash : printable.has '\\' := by decide
  by_cases hmark : (decide (p.val = quote.toNat) || decide (p.val = '\\'.toNat)) = true
  · rw [escapedPoint, if_pos hmark]
    rw [Bool.or_eq_true, decide_eq_true_eq, decide_eq_true_eq] at hmark
    rcases hmark with hmark | hmark
    · simpa [hmark, hslash] using hq
    · simp [hmark, hslash]
  · rw [escapedPoint, if_neg hmark]
    cases hletter : controlLetter? p.val with
    | some letter => simp [hslash, printable_controlLetter hletter]
    | none =>
      by_cases hp : (Text.isPrintable p.val && !p.isSurrogate) = true
      · rw [if_pos hp]
        rw [Bool.and_eq_true] at hp
        simpa using printable_ofNat hp.1
      · rw [if_neg hp]
        refine spells_flatMap fun unit _ => ?_
        rw [unitEscape, spells_cons, spells_cons]
        exact ⟨hslash, by decide, printable_padded 4 unit⟩

theorem printable_writeText {quote : Char} (hq : printable.has quote) (t : Text) :
    printable.Writes (text quote t) := by
  rw [text, writes_ofList, spells_append, spells_cons]
  exact ⟨⟨hq, spells_flatMap fun p _ => printable_escapedPoint hq p⟩, by simpa using hq⟩

theorem printable_writeDecimal (pattern : Nat) (d : Number.Decimal) :
    printable.Spells (writeDecimal pattern d) :=
  spells_ite (Number.Layout.printable_plain (Number.printable_significant d) _)
    (Number.Layout.printable_scientific (by decide) (Number.printable_significant d) _)

theorem printable_real {isSingle : Bool} {x : Number.Double} {s : String}
    (h : real isSingle x = .ok s) : printable.Writes s := by
  unfold real at h
  split at h
  · cases h
    decide
  · cases h
    split_ifs <;> decide
  · next negative coeff exponent _ =>
    by_cases hcoeff : coeff = 0
    · rw [if_pos hcoeff] at h
      cases h
      rw [writes_ofList, spells_append]
      exact ⟨Number.printable_sign negative, by decide⟩
    · rw [if_neg hcoeff] at h
      obtain ⟨d, -, h⟩ := bind_eq_ok.mp h
      cases h
      rw [writes_ofList, spells_append]
      exact ⟨Number.printable_sign negative, printable_writeDecimal _ d⟩

/-- A literal is printable. -/
theorem printable_constant {descriptor : String} {v : Value} {s : String}
    (h : constant descriptor v = .ok s) : printable.Writes s := by
  cases v with
  | boolean b =>
    cases h
    cases b <;> decide
  | text t =>
    cases h
    exact printable_writeText (printable_quoteOf descriptor) t
  | real x => exact printable_real h
  | nothing | integer | list | enumConstant | classLiteral | annotationLiteral =>
    cases h
    exact Value.printable_shown _

end Literal

end ApiSurface
