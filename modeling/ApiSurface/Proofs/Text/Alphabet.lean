/-
ApiSurface.Proofs.Text.Alphabet — the characters that a text is written in.

An alphabet has all printable characters, and maybe others. Which one a text is written
in follows from what its parts are written in, so a statement about the characters of a
text is put together along the text, without a look at any position in it.

Printable code points are characters: none is a surrogate or lies outside of the code
space (`isValidChar_of_isPrintable`). What stands for a code point that is not
printable, in quotes or in a literal, is printable itself.
-/
import ApiSurface.Text.Quoted
import ApiSurface.Proofs.Lists
import Mathlib.Tactic.SplitIfs

namespace ApiSurface

/-! ## 1. Printable code points -/

namespace Text

theorem isPrintable_of_ascii {n : Nat} (hl : 0x20 ≤ n) (hu : n < 0x7F) : isPrintable n = true := by
  simp [isPrintable, hl, hu]

set_option maxRecDepth 4000 in
/-- The intervals of printable code points avoid the surrogates and end in the code space. -/
theorem printableRanges_valid : ∀ r ∈ printableRanges,
    r.2 < 0xD800 ∨ 0xDFFF < r.1 ∧ r.2 < 0x110000 := by
  decide +kernel

/-- A printable code point is a character. -/
theorem isValidChar_of_isPrintable {n : Nat} (h : isPrintable n = true) : n.isValidChar := by
  rw [isPrintable, Bool.or_eq_true, Bool.and_eq_true, Bool.and_eq_true, List.any_eq_true] at h
  rcases h with ⟨-, h⟩ | ⟨-, r, hr, h⟩
  · have h := of_decide_eq_true h
    exact .inl (by omega)
  · have hvalid := printableRanges_valid r hr
    rw [Bool.and_eq_true, decide_eq_true_eq, decide_eq_true_eq] at h
    rcases hvalid with hvalid | hvalid
    · exact .inl (by omega)
    · exact .inr (by omega)

/-- The character of a number that is one has this number. -/
theorem toNat_ofNat_of_isValidChar {n : Nat} (h : n.isValidChar) : (Char.ofNat n).toNat = n := by
  rw [Char.ofNat, dif_pos h]
  rfl

end Text

/-! ## 2. Alphabets -/

/-- Characters to write in: the printable ones, and maybe others. -/
structure Alphabet where
  has : Char → Prop
  has_of_isPrintable : ∀ {c}, Text.isPrintable c.toNat = true → has c

namespace Alphabet

/-- The alphabet of the printable characters alone. -/
def printable : Alphabet := ⟨fun c => Text.isPrintable c.toNat = true, id⟩

/-- Whether all characters in a row are of an alphabet. -/
def Spells (A : Alphabet) (l : List Char) : Prop := ∀ c ∈ l, A.has c

/-- Whether a text is written in an alphabet. -/
def Writes (A : Alphabet) (s : String) : Prop := A.Spells s.toList

instance (c : Char) : Decidable (printable.has c) :=
  inferInstanceAs (Decidable (Text.isPrintable c.toNat = true))

-- By name, since an instance that looks at every character there is may be found first.
instance (l : List Char) : Decidable (printable.Spells l) :=
  List.decidableBAll printable.has l

instance (s : String) : Decidable (printable.Writes s) :=
  inferInstanceAs (Decidable (printable.Spells s.toList))

variable {A : Alphabet}

theorem Spells.of_printable {l : List Char} (h : printable.Spells l) : A.Spells l :=
  fun c hc => A.has_of_isPrintable (h c hc)

theorem Writes.of_printable {s : String} (h : printable.Writes s) : A.Writes s :=
  Spells.of_printable h

/-! ## 3. Rows of characters -/

@[simp] theorem spells_nil : A.Spells [] := nofun

@[simp] theorem spells_cons {c : Char} {l : List Char} :
    A.Spells (c :: l) ↔ A.has c ∧ A.Spells l := List.forall_mem_cons

@[simp] theorem spells_append {l l' : List Char} :
    A.Spells (l ++ l') ↔ A.Spells l ∧ A.Spells l' := List.forall_mem_append

theorem Spells.subset {l l' : List Char} (h : A.Spells l) (hsub : l' ⊆ l) : A.Spells l' :=
  fun c hc => h c (hsub hc)

theorem spells_flatMap {α : Type} {f : α → List Char} {items : List α}
    (h : ∀ a ∈ items, A.Spells (f a)) : A.Spells (items.flatMap f) := by
  intro c hc
  obtain ⟨a, ha, hc⟩ := List.mem_flatMap.mp hc
  exact h a ha c hc

theorem spells_intercalate {separator : List Char} {words : List (List Char)}
    (hs : A.Spells separator) (h : ∀ w ∈ words, A.Spells w) :
    A.Spells (separator.intercalate words) := by
  intro c hc
  rcases mem_of_mem_intercalate hc with hc | ⟨w, hw, hc⟩
  · exact hs c hc
  · exact h w hw c hc

/-- Dots in place of slashes. -/
theorem spells_dots {l : List Char} (h : A.Spells l) :
    A.Spells (l.map fun c => if c = '/' then '.' else c) := by
  have hdot : A.has '.' := A.has_of_isPrintable (by decide)
  intro c hc
  obtain ⟨c', hc', rfl⟩ := List.mem_map.mp hc
  split_ifs
  · exact hdot
  · exact h c' hc'

theorem spells_ite {p : Prop} [Decidable p] {l l' : List Char} (h : A.Spells l)
    (h' : A.Spells l') : A.Spells (if p then l else l') := by
  split_ifs
  · exact h
  · exact h'

/-! ## 4. Texts -/

@[simp] theorem writes_ofList {l : List Char} : A.Writes (String.ofList l) ↔ A.Spells l := by
  rw [Writes, String.toList_ofList]

@[simp] theorem writes_append {s t : String} : A.Writes (s ++ t) ↔ A.Writes s ∧ A.Writes t := by
  rw [Writes, String.toList_append, spells_append]
  rfl

/-- Texts with a separator between them. -/
theorem writes_intercalate {separator : String} {texts : List String} (hs : A.Writes separator)
    (h : ∀ s ∈ texts, A.Writes s) : A.Writes (separator.intercalate texts) := by
  rw [Writes, String.toList_intercalate]
  exact spells_intercalate hs (List.forall_mem_map.mpr h)

/-! ## 5. Numbers of code points -/

theorem printable_digit {n : Nat} (h : n < 16) : printable.has (Text.Hex.digit n) := by
  have hall : ∀ n < 16, Text.isPrintable (Text.Hex.digit n).toNat = true := by decide
  exact hall n h

theorem printable_padded (width n : Nat) : printable.Spells (Text.Hex.padded width n) := by
  induction width generalizing n with
  | zero => exact spells_nil
  | succ width ih =>
    rw [Text.Hex.padded, spells_append, spells_cons]
    exact ⟨ih _, printable_digit (Nat.mod_lt _ (by decide)), spells_nil⟩

/-- A printable code point stands for itself. -/
theorem printable_ofNat {n : Nat} (h : Text.isPrintable n = true) :
    printable.has (Char.ofNat n) := by
  rw [← Text.toNat_ofNat_of_isValidChar (Text.isValidChar_of_isPrintable h)] at h
  exact h

theorem printable_escapeNumber (n : Nat) : printable.Spells (Text.escapeNumber n) := by
  have hmarks : printable.Spells ['\\', 'x', 'u', 'U'] := by decide
  unfold Text.escapeNumber
  split_ifs
  all_goals
    simp only [spells_cons]
    exact ⟨hmarks _ (by decide), hmarks _ (by decide), printable_padded _ _⟩

theorem printable_quoteFor (t : Text) : printable.has (Text.quoteFor t) := by
  unfold Text.quoteFor
  split_ifs
  · decide
  · decide

theorem printable_quotedPoint {quote : Char} (hq : printable.has quote) (p : CodePoint) :
    printable.Spells (Text.quotedPoint quote p) := by
  have hescapes : printable.Spells ['\\', 'n', 'r', 't'] := by decide
  simp only [spells_cons] at hescapes
  unfold Text.quotedPoint
  split_ifs with _ _ _ _ _ hp
  · simp [hescapes, hq]
  · simp [hescapes]
  · simp [hescapes]
  · simp [hescapes]
  · simp [hescapes]
  · simpa using printable_ofNat hp
  · exact printable_escapeNumber _

/-- A text in quotes is printable, whatever the text is. -/
theorem printable_quoted (t : Text) : printable.Writes (Text.quoted t) := by
  have hq := printable_quoteFor t
  rw [Text.quoted, writes_ofList, spells_append, spells_cons]
  exact ⟨⟨hq, spells_flatMap fun p _ => printable_quotedPoint hq p⟩, by simpa using hq⟩

end Alphabet

end ApiSurface
