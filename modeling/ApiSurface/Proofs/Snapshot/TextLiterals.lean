/-
ApiSurface.Proofs.Snapshot.TextLiterals — reading text literals back.

A literal spells the UTF-16 units of a text, and source text has rules to read them back
(`Literal.unitsOf?`): an escape gives one unit, and every other character gives its own. Each
code point is read back before what follows it is looked at (`Literal.unitsOf?_escapedPoint`), so
no escape runs into the next character, and a backslash in front of a `u` is never taken for
the start of an escape.

Which characters stand for themselves is up to a table of printable ones. Nothing here depends
on this table except that it leaves out the characters that break lines, and so the statements
hold for every such table.
-/
import ApiSurface.Proofs.ClassFile.ModifiedUtf8
import ApiSurface.Proofs.Text.Alphabet
import ApiSurface.Snapshot.Literal
import Mathlib.Algebra.Order.Ring.Nat

namespace ApiSurface

/-! ## 1. Numbers in hexadecimal digits -/

namespace Text.Hex

theorem value?_digit {n : Nat} (h : n < 16) : value? (digit n) = some n := by
  have hall : ∀ n < 16, value? (digit n) = some n := by decide
  exact hall n h

/-- Digits spell the number that they were written for, as far as they reach. -/
theorem number?_padded (width n : Nat) : number? (padded width n) = some (n % 16 ^ width) := by
  induction width generalizing n with
  | zero => simp [padded, number?, Nat.mod_one]
  | succ width ih =>
    have hlast : number? (padded (width + 1) n) =
        (number? (padded width (n / 16))).bind fun m =>
          (value? (digit (n % 16))).bind fun d => some (m * 16 + d) := by
      rw [padded, number?, List.foldl_append]
      rfl
    have hvalue : n / 16 % 16 ^ width * 16 + n % 16 = n % 16 ^ (width + 1) := by
      rw [Nat.pow_succ', Nat.mod_mul]
      omega
    rw [hlast, ih, value?_digit (Nat.mod_lt n (by decide)), Option.bind_some, Option.bind_some,
      hvalue]

theorem mem_padded {c : Char} {width n : Nat} (h : c ∈ padded width n) : ∃ n < 16, c = digit n := by
  induction width generalizing n with
  | zero => cases h
  | succ width ih =>
    rw [padded, List.mem_append, List.mem_singleton] at h
    rcases h with h | rfl
    · exact ih h
    · exact ⟨n % 16, Nat.mod_lt _ (by decide), rfl⟩

end Text.Hex

/-! ## 2. Texts without surrogates -/

namespace CodePoint

variable {p : CodePoint}

theorem isValidChar_of_not_isSurrogate (h : p.isSurrogate = false) : p.val.isValidChar := by
  rw [isSurrogate, ← Bool.decide_and, decide_eq_false_iff_not] at h
  have hlt := p.isLt
  unfold Nat.isValidChar
  omega

/-- What is not a surrogate is a character. -/
theorem ofChar_ofNat (h : p.isSurrogate = false) : ofChar (Char.ofNat p.val) = p := by
  have hval := Text.toNat_ofNat_of_isValidChar (isValidChar_of_not_isSurrogate h)
  obtain ⟨n, hn⟩ := p
  rw [ofChar, CodePoint.mk.injEq]
  exact hval

end CodePoint

/-- A text without surrogates is what its units give if pairs are joined. -/
theorem Text.ofChar_mend_units {t : Text} (h : ∀ p ∈ t, p.isSurrogate = false) :
    (ModifiedUtf8.mend t.units).map CodePoint.ofChar = t := by
  induction t with
  | nil => rfl
  | cons p t ih =>
    rw [List.forall_mem_cons] at h
    have hp := CodePoint.ofChar_ofNat h.1
    have hunits : p.units = ModifiedUtf8.unitsOf (Char.ofNat p.val) :=
      calc p.units = (CodePoint.ofChar (Char.ofNat p.val)).units := by rw [hp]
        _ = ModifiedUtf8.unitsOf (Char.ofNat p.val) := rfl
    rw [Text.units, List.flatMap_cons, hunits, ModifiedUtf8.mend_unitsOf, List.map_cons, hp]
    exact congrArg _ (ih h.2)

namespace Literal

/-! ## 3. Which characters stand for themselves -/

/-- Control characters, and the separators of lines and of paragraphs. -/
def IsBreak (n : Nat) : Prop := n < 0x20 ∨ 0x7F ≤ n ∧ n < 0xA0 ∨ n = 0x2028 ∨ n = 0x2029

instance (n : Nat) : Decidable (IsBreak n) := inferInstanceAs (Decidable (_ ∨ _))

/-- A table of printable characters without breaks. -/
def ExcludesBreaks (printable : Nat → Bool) : Prop := ∀ n, IsBreak n → printable n = false

theorem excludesBreaks_isPrintable : ExcludesBreaks Text.isPrintable := by
  have hlow : ∀ n < 0xA0, IsBreak n → Text.isPrintable n = false := by decide +kernel
  intro n hn
  by_cases hlt : n < 0xA0
  · exact hlow n hlt hn
  · have hseparator : n = 0x2028 ∨ n = 0x2029 := by
      unfold IsBreak at hn
      omega
    rcases hseparator with rfl | rfl
    · decide +kernel
    · decide +kernel

variable (printable : Nat → Bool) (quote : Char)

/-- One code point inside quotes, by a table of printable characters. -/
def escapedPointWith (p : CodePoint) : List Char :=
  if p.val = quote.toNat || p.val = '\\'.toNat then ['\\', Char.ofNat p.val]
  else
    match controlLetter? p.val with
    | some letter => ['\\', letter]
    | none =>
      if printable p.val && !p.isSurrogate then [Char.ofNat p.val]
      else p.units.flatMap unitEscape

/-- A text inside quotes, by a table of printable characters. -/
def escapedWith (t : Text) : List Char := t.flatMap (escapedPointWith printable quote)

/-- A text in quotes, by a table of printable characters. -/
def textWith (t : Text) : String :=
  String.ofList (quote :: escapedWith printable quote t ++ [quote])

theorem text_eq_textWith (t : Text) : text quote t = textWith Text.isPrintable quote t := rfl

/-! ## 4. Reading -/

/-- The unit of an escape of one character. -/
def escapeUnit? (c : Char) : Option Nat :=
  if c = quote ∨ c = '\\' then some c.toNat
  else
    match c with
    | 'n' => some 0x0A
    | 'r' => some 0x0D
    | 't' => some 0x09
    | 'b' => some 0x08
    | 'f' => some 0x0C
    | _ => none

/-- The units that the text between two quotes spells: a backslash starts an escape, and every
other character stands for itself. A quote, or a backslash without an escape, cannot stand
there. -/
def unitsOf? : List Char → Option (List Nat)
  | [] => some []
  | '\\' :: 'u' :: a :: b :: c :: d :: rest => do
    let unit ← Text.Hex.number? [a, b, c, d]
    return unit :: (← unitsOf? rest)
  | '\\' :: c :: rest => do
    let unit ← escapeUnit? quote c
    return unit :: (← unitsOf? rest)
  | c :: rest =>
    if c = quote ∨ c = '\\' then none
    else (unitsOf? rest).map ((CodePoint.ofChar c).units ++ ·)

/-- Whether a quote stands where no backslash in front of it takes its meaning away. -/
def hasBareQuote : List Char → Bool
  | [] => false
  | '\\' :: _ :: rest => hasBareQuote rest
  | c :: rest => c == quote || hasBareQuote rest

/-! ## 5. Reading back -/

variable {printable quote}

/-- The characters that texts are quoted with. -/
def IsQuote (quote : Char) : Prop := quote = '"' ∨ quote = '\''

theorem isQuote_quoteOf (descriptor : String) : IsQuote (quoteOf descriptor) := by
  unfold quoteOf IsQuote
  split_ifs
  · exact .inr rfl
  · exact .inl rfl

theorem unitsOf?_escape {c : Char} {unit : Nat} (hc : c ≠ 'u') (h : escapeUnit? quote c = some unit)
    (rest : List Char) :
    unitsOf? quote ('\\' :: c :: rest) = (unitsOf? quote rest).map (unit :: ·) := by
  rw [unitsOf?, h]
  · cases unitsOf? quote rest <;> rfl
  · exact fun _ _ _ _ _ hu _ => hc hu

theorem unitsOf?_self {c : Char} (hquote : c ≠ quote) (hslash : c ≠ '\\') (rest : List Char) :
    unitsOf? quote (c :: rest) =
      (unitsOf? quote rest).map ((CodePoint.ofChar c).units ++ ·) := by
  rw [unitsOf?, if_neg (not_or.mpr ⟨hquote, hslash⟩)]
  · exact fun _ _ _ _ _ hc _ => hslash hc
  · exact fun _ _ hc _ => hslash hc

theorem unitsOf?_unitEscape {unit : Nat} (h : unit < 0x10000) (rest : List Char) :
    unitsOf? quote (unitEscape unit ++ rest) = (unitsOf? quote rest).map (unit :: ·) := by
  have hnumber := Text.Hex.number?_padded 4 unit
  rw [Nat.mod_eq_of_lt (show unit < 16 ^ 4 by omega)] at hnumber
  obtain ⟨a, b, c, d, hdigits⟩ : ∃ a b c d, Text.Hex.padded 4 unit = [a, b, c, d] :=
    ⟨_, _, _, _, rfl⟩
  rw [hdigits] at hnumber
  rw [unitEscape, hdigits]
  change unitsOf? quote ('\\' :: 'u' :: a :: b :: c :: d :: rest) = _
  rw [unitsOf?, hnumber]
  cases unitsOf? quote rest <;> rfl

/-- The units of a code point, each with an escape of its own. -/
theorem unitsOf?_unitEscapes {us : List Nat} (h : ∀ u ∈ us, u < 0x10000) (rest : List Char) :
    unitsOf? quote (us.flatMap unitEscape ++ rest) = (unitsOf? quote rest).map (us ++ ·) := by
  induction us with
  | nil => exact Option.map_id'.symm
  | cons u us ih =>
    rw [List.forall_mem_cons] at h
    rw [List.flatMap_cons, List.append_assoc, unitsOf?_unitEscape h.1, ih h.2, Option.map_map]
    rfl

/-- Quotes and backslashes stand for themselves behind a backslash. -/
theorem escapeUnit?_mark (hq : IsQuote quote) {c : Char} (h : c = quote ∨ c = '\\') :
    c ≠ 'u' ∧ escapeUnit? quote c = some c.toNat ∧ c.toNat < 0x10000 := by
  refine ⟨?_, if_pos h, ?_⟩
  all_goals
    obtain rfl | rfl := h
    · obtain rfl | rfl := hq <;> decide
    · decide

theorem escapeUnit?_controlLetter (hq : IsQuote quote) {n : Nat} {letter : Char}
    (h : controlLetter? n = some letter) :
    letter ≠ 'u' ∧ escapeUnit? quote letter = some n ∧ n < 0x10000 := by
  unfold controlLetter? at h
  split at h
  case h_6 => cases h
  all_goals
    cases h
    obtain rfl | rfl := hq <;> decide

theorem CodePoint.lt_of_mem_units {p : CodePoint} {u : Nat} (h : u ∈ p.units) : u < 0x10000 := by
  have hlt := p.isLt
  unfold CodePoint.units at h
  split_ifs at h
  · rw [List.mem_singleton] at h
    omega
  · simp only [List.mem_cons, List.not_mem_nil, or_false] at h
    omega

/-- The ways in which a code point is written: as an escape of one character, as itself, or as an
escape for each of its units. -/
inductive Spelling (printable : Nat → Bool) (quote : Char) (p : CodePoint) : List Char → Prop
  | escape {c : Char} : c ≠ 'u' → escapeUnit? quote c = some p.val → p.val < 0x10000 →
      Spelling printable quote p ['\\', c]
  | self {c : Char} : CodePoint.ofChar c = p → c ≠ quote → c ≠ '\\' → printable c.toNat = true →
      Spelling printable quote p [c]
  | units : Spelling printable quote p (p.units.flatMap unitEscape)

theorem spelling_escapedPointWith (hq : IsQuote quote) (p : CodePoint) :
    Spelling printable quote p (escapedPointWith printable quote p) := by
  by_cases hmark : (decide (p.val = quote.toNat) || decide (p.val = '\\'.toNat)) = true
  · rw [escapedPointWith, if_pos hmark]
    rw [Bool.or_eq_true, decide_eq_true_eq, decide_eq_true_eq] at hmark
    have hchar : ∃ c, p.val = c.toNat ∧ (c = quote ∨ c = '\\') := by
      rcases hmark with h | h
      · exact ⟨quote, h, .inl rfl⟩
      · exact ⟨'\\', h, .inr rfl⟩
    obtain ⟨c, hval, hc⟩ := hchar
    obtain ⟨hu, hunit, hlt⟩ := escapeUnit?_mark hq hc
    rw [hval, Char.ofNat_toNat]
    exact .escape hu (hval ▸ hunit) (hval ▸ hlt)
  · rw [escapedPointWith, if_neg hmark]
    rw [Bool.or_eq_true, decide_eq_true_eq, decide_eq_true_eq, not_or] at hmark
    cases hletter : controlLetter? p.val with
    | some letter =>
      obtain ⟨hu, hunit, hlt⟩ := escapeUnit?_controlLetter hq hletter
      exact .escape hu hunit hlt
    | none =>
      by_cases hp : (printable p.val && !p.isSurrogate) = true
      · simp only [if_pos hp]
        rw [Bool.and_eq_true, Bool.not_eq_true'] at hp
        have hpoint := CodePoint.ofChar_ofNat hp.2
        have hval : (Char.ofNat p.val).toNat = p.val := congrArg CodePoint.val hpoint
        refine .self hpoint (fun h => hmark.1 ?_) (fun h => hmark.2 ?_) ?_
        · rw [← hval, h]
        · rw [← hval, h]
        · rw [hval]
          exact hp.1
      · simp only [if_neg hp]
        exact .units

/-- A code point is read back from what it is written as, and what follows is left as it is. -/
theorem Spelling.unitsOf? {p : CodePoint} {l : List Char} (h : Spelling printable quote p l)
    (rest : List Char) :
    Literal.unitsOf? quote (l ++ rest) = (Literal.unitsOf? quote rest).map (p.units ++ ·) := by
  cases h with
  | escape hu hunit hlt =>
    rw [CodePoint.units, if_pos hlt]
    exact unitsOf?_escape hu hunit rest
  | self hc hquote hslash _ =>
    rw [← hc]
    exact unitsOf?_self hquote hslash rest
  | units => exact unitsOf?_unitEscapes (fun _ hu => CodePoint.lt_of_mem_units hu) rest

theorem unitsOf?_escapedWith (hq : IsQuote quote) (t : Text) :
    unitsOf? quote (escapedWith printable quote t) = some t.units := by
  induction t with
  | nil => rfl
  | cons p t ih =>
    rw [escapedWith, List.flatMap_cons, (spelling_escapedPointWith hq p).unitsOf?]
    change ((unitsOf? quote (escapedWith printable quote t)).map _) = _
    rw [ih]
    rfl

/-! ## 6. The characters of a literal -/

theorem mem_unitEscape {c : Char} {unit : Nat} (h : c ∈ unitEscape unit) :
    c = '\\' ∨ c = 'u' ∨ ∃ n < 16, c = Text.Hex.digit n := by
  rw [unitEscape, List.mem_cons, List.mem_cons] at h
  exact h.imp_right fun h => h.imp_right Text.Hex.mem_padded

/-- Where neither a quote nor a backslash stands, nothing is bare. -/
theorem hasBareQuote_append {l : List Char} (h : ∀ c ∈ l, c ≠ quote ∧ c ≠ '\\') (rest : List Char) :
    hasBareQuote quote (l ++ rest) = hasBareQuote quote rest := by
  induction l with
  | nil => rfl
  | cons c l ih =>
    rw [List.forall_mem_cons] at h
    rw [List.cons_append, hasBareQuote, ih h.2, beq_eq_false_iff_ne.mpr h.1.1, Bool.false_or]
    exact fun _ _ hc _ => h.1.2 hc

theorem hasBareQuote_unitEscapes (hq : IsQuote quote) (us : List Nat) (rest : List Char) :
    hasBareQuote quote (us.flatMap unitEscape ++ rest) = hasBareQuote quote rest := by
  have hdigit : ∀ n < 16, Text.Hex.digit n ≠ quote ∧ Text.Hex.digit n ≠ '\\' := by
    obtain rfl | rfl := hq <;> decide
  induction us with
  | nil => rfl
  | cons u us ih =>
    rw [List.flatMap_cons, List.append_assoc]
    change hasBareQuote quote (Text.Hex.padded 4 u ++ (us.flatMap unitEscape ++ rest)) = _
    rw [hasBareQuote_append fun c hc => ?_, ih]
    obtain ⟨n, hn, rfl⟩ := Text.Hex.mem_padded hc
    exact hdigit n hn

theorem Spelling.hasBareQuote (hq : IsQuote quote) {p : CodePoint} {l : List Char}
    (h : Spelling printable quote p l) (rest : List Char) :
    Literal.hasBareQuote quote (l ++ rest) = Literal.hasBareQuote quote rest := by
  cases h with
  | escape => rfl
  | self _ hquote hslash _ =>
    exact hasBareQuote_append (by simpa using ⟨hquote, hslash⟩) rest
  | units => exact hasBareQuote_unitEscapes hq p.units rest

theorem hasBareQuote_escapedWith (hq : IsQuote quote) (t : Text) :
    hasBareQuote quote (escapedWith printable quote t) = false := by
  induction t with
  | nil => rfl
  | cons p t ih =>
    rw [escapedWith, List.flatMap_cons, (spelling_escapedPointWith hq p).hasBareQuote hq]
    exact ih

/-- The characters that escapes are made of. -/
def IsAscii (n : Nat) : Prop := 0x20 ≤ n ∧ n < 0x7F

instance (n : Nat) : Decidable (IsAscii n) := inferInstanceAs (Decidable (_ ∧ _))

theorem isAscii_of_escapeUnit? (hq : IsQuote quote) {c : Char} {unit : Nat}
    (h : escapeUnit? quote c = some unit) : IsAscii c.toNat := by
  unfold escapeUnit? at h
  split_ifs at h with hmark
  · obtain rfl | rfl := hmark
    · obtain rfl | rfl := hq <;> decide
    · decide
  · split at h
    case h_6 => cases h
    all_goals decide

/-- Every character stands for itself and is printable, or belongs to an escape. -/
theorem Spelling.chars (hq : IsQuote quote) {p : CodePoint} {l : List Char}
    (h : Spelling printable quote p l) : ∀ c ∈ l, printable c.toNat = true ∨ IsAscii c.toNat := by
  cases h with
  | escape _ hunit _ =>
    rw [List.forall_mem_cons, List.forall_mem_singleton]
    exact ⟨.inr (by decide), .inr (isAscii_of_escapeUnit? hq hunit)⟩
  | self _ _ _ hp => simpa using Or.inl hp
  | units =>
    have hdigit : ∀ n < 16, IsAscii (Text.Hex.digit n).toNat := by decide
    intro c hc
    obtain ⟨u, -, hc⟩ := List.mem_flatMap.mp hc
    obtain rfl | rfl | ⟨n, hn, rfl⟩ := mem_unitEscape hc
    · exact .inr (by decide)
    · exact .inr (by decide)
    · exact .inr (hdigit n hn)

/-! ## 7. Literals of texts -/

/-- The text between two quotes spells a text: it is read back as the units of this text, no quote
ends it too early, and it holds no break, no surrogate and nothing that is not printable. -/
structure Faithful (printable : Nat → Bool) (quote : Char) (t : Text) (body : List Char) :
    Prop where
  units : unitsOf? quote body = some t.units
  noBareQuote : hasBareQuote quote body = false
  noBreak : ∀ c ∈ body, ¬ IsBreak c.toNat
  noSurrogate : ∀ c ∈ body, (CodePoint.ofChar c).isSurrogate = false
  chars : ∀ c ∈ body, printable c.toNat = true ∨ IsAscii c.toNat

theorem chars_escapedWith (hq : IsQuote quote) (t : Text) :
    ∀ c ∈ escapedWith printable quote t, printable c.toNat = true ∨ IsAscii c.toNat := by
  intro c hc
  obtain ⟨p, -, hc⟩ := List.mem_flatMap.mp hc
  exact (spelling_escapedPointWith hq p).chars hq c hc

theorem not_isBreak_of_isAscii {n : Nat} (h : IsAscii n) : ¬ IsBreak n := by
  unfold IsAscii at h
  unfold IsBreak
  omega

theorem isSurrogate_ofChar (c : Char) : (CodePoint.ofChar c).isSurrogate = false := by
  have hvalid := ModifiedUtf8.toNat_not_surrogate c
  change (decide (0xD800 ≤ c.toNat) && decide (c.toNat ≤ 0xDFFF)) = false
  rw [← Bool.decide_and, decide_eq_false_iff_not]
  omega

theorem faithful_escapedWith (hp : ExcludesBreaks printable) (hq : IsQuote quote) (t : Text) :
    Faithful printable quote t (escapedWith printable quote t) where
  units := unitsOf?_escapedWith hq t
  noBareQuote := hasBareQuote_escapedWith hq t
  noBreak c hc := by
    rcases chars_escapedWith hq t c hc with h | h
    · intro hbreak
      rw [hp _ hbreak] at h
      cases h
    · exact not_isBreak_of_isAscii h
  noSurrogate c _ := isSurrogate_ofChar c
  chars := chars_escapedWith hq t

/-- Texts without surrogates have literals of their own. -/
theorem textWith_injective (hq : IsQuote quote) {quote' : Char} (hq' : IsQuote quote')
    {t t' : Text} (ht : ∀ p ∈ t, p.isSurrogate = false) (ht' : ∀ p ∈ t', p.isSurrogate = false)
    (h : textWith printable quote t = textWith printable quote' t') : t = t' := by
  have hchars := congrArg String.toList h
  rw [textWith, textWith, String.toList_ofList, String.toList_ofList, List.cons_append,
    List.cons_append, List.cons.injEq] at hchars
  obtain ⟨rfl, hbody⟩ := hchars
  have hsame : escapedWith printable quote t = escapedWith printable quote t' :=
    List.append_cancel_right hbody
  have hunits : some t.units = some t'.units := by
    rw [← unitsOf?_escapedWith hq t, hsame, unitsOf?_escapedWith hq t']
  rw [← Text.ofChar_mend_units ht, Option.some.inj hunits, Text.ofChar_mend_units ht']

/-- A text stands in the quotes of its field, spelled by the table of printable characters, which
has no breaks and has the characters of escapes. By any table without breaks, a text is spelled
faithfully, and texts without surrogates that are spelled alike are equal. -/
theorem constant_text_faithful :
    (∀ descriptor t, IsQuote (quoteOf descriptor) ∧ constant descriptor (.text t) =
      .ok (textWith Text.isPrintable (quoteOf descriptor) t)) ∧
    ExcludesBreaks Text.isPrintable ∧ (∀ n, IsAscii n → Text.isPrintable n = true) ∧
    ∀ printable, ExcludesBreaks printable → ∀ quote, IsQuote quote →
      ∀ t, Faithful printable quote t (escapedWith printable quote t) ∧
        ((∀ p ∈ t, p.isSurrogate = false) → ∀ quote' t', IsQuote quote' →
          (∀ p ∈ t', p.isSurrogate = false) →
          textWith printable quote t = textWith printable quote' t' → t = t') := by
  refine ⟨fun descriptor t => ⟨isQuote_quoteOf descriptor, ?_⟩, excludesBreaks_isPrintable,
    fun n h => Text.isPrintable_of_ascii h.1 h.2, fun printable hp quote hq t => ⟨?_, ?_⟩⟩
  · rw [constant, text_eq_textWith]
  · exact faithful_escapedWith hp hq t
  · intro ht quote' t' hq' ht' h
    exact textWith_injective hq hq' ht ht' h

/-- A quote, a backslash in front of a `u` and a zero, control characters, a letter beyond ASCII,
a code point with two units, and a surrogate. -/
def awkward : Text :=
  [0x22, 0x5C, 0x75, 0x30, 0x0A, 0x07, 0xE9, 0x10FFFF, 0xD800].filterMap CodePoint.ofNat?

/-- Only the letters and the zero stand for themselves. -/
theorem constant_text_faithful_awkward :
    constant "Ljava/lang/String;" (.text awkward) =
      .ok "\"\\\"\\\\u0\\n\\u0007é\\udbff\\udfff\\ud800\"" ∧
    unitsOf? '"' (escapedWith Text.isPrintable '"' awkward) =
      some [0x22, 0x5C, 0x75, 0x30, 0x0A, 0x07, 0xE9, 0xDBFF, 0xDFFF, 0xD800] ∧
    ∀ t', (∀ p ∈ t', p.isSurrogate = false) →
      textWith Text.isPrintable '"' awkward.dropLast = textWith Text.isPrintable '"' t' →
      awkward.dropLast = t' := by
  obtain ⟨hconstant, hbreaks, -, hfaithful⟩ := constant_text_faithful
  have hq : IsQuote '"' := .inl rfl
  have htext : textWith Text.isPrintable '"' awkward =
      "\"\\\"\\\\u0\\n\\u0007é\\udbff\\udfff\\ud800\"" := by
    decide +kernel
  refine ⟨(hconstant _ awkward).2.trans (congrArg Except.ok htext), ?_, fun t' ht' h => ?_⟩
  · exact (hfaithful _ hbreaks _ hq awkward).1.units
  · exact (hfaithful _ hbreaks _ hq _).2 (by decide +kernel) _ t' hq ht' h

end Literal

end ApiSurface
