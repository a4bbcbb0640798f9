/-
ApiSurface.Proofs.Descriptor.Unambiguous — written types tell descriptors apart.

Source text leaves out `java.lang`, and puts dots for slashes and for the brackets of a last
parameter. Nothing of that is lost where the names in a descriptor are identifiers and every
class lies in a package (`JavaType.IsPlain`). A written name with a dot in it is the whole
name; one without a dot lay in `java.lang`, and is no keyword of a primitive type. An array
is told by its last character, and so are three dots, in which no other type ends.

The parameters of a method are therefore known from the row of their written types
(`parameters_injective`), whichever of two methods has a variable count of arguments.
-/
import ApiSurface.Proofs.Descriptor.Written
import ApiSurface.Proofs.Lists

namespace ApiSurface

namespace Descriptor

/-! ## 1. Rows of words -/

variable {c : Char} {separator : List Char}

/-- A row is cut in one way at the first place of a character. -/
theorem append_cons_inj_of_front {x₁ x₂ z₁ z₂ : List Char} (h₁ : c ∉ x₁) (h₂ : c ∉ x₂)
    (h : x₁ ++ c :: z₁ = x₂ ++ c :: z₂) : x₁ = x₂ ∧ z₁ = z₂ := by
  induction x₁ generalizing x₂ with
  | nil =>
    cases x₂ with
    | nil => exact ⟨rfl, (List.cons.inj h).2⟩
    | cons d x₂ => exact absurd List.mem_cons_self ((List.cons.inj h).1 ▸ h₂)
  | cons d x₁ ih =>
    cases x₂ with
    | nil => exact absurd List.mem_cons_self ((List.cons.inj h).1 ▸ h₁)
    | cons e x₂ =>
      obtain ⟨rfl, htail⟩ := List.cons.inj h
      obtain ⟨rfl, hz⟩ :=
        ih (List.not_mem_of_not_mem_cons h₁) (List.not_mem_of_not_mem_cons h₂) htail
      exact ⟨rfl, hz⟩

/-- A row is cut in one way at the last place of a character. -/
theorem append_cons_inj_of_back {x₁ x₂ z₁ z₂ : List Char} (h₁ : c ∉ z₁) (h₂ : c ∉ z₂)
    (h : x₁ ++ c :: z₁ = x₂ ++ c :: z₂) : x₁ = x₂ ∧ z₁ = z₂ := by
  have hreverse : z₁.reverse ++ c :: x₁.reverse = z₂.reverse ++ c :: x₂.reverse := by
    simpa using congrArg List.reverse h
  have := append_cons_inj_of_front (by simpa using h₁) (by simpa using h₂) hreverse
  exact ⟨List.reverse_injective this.2, List.reverse_injective this.1⟩

theorem not_mem_intercalate {words : List (List Char)} (hs : c ∉ separator)
    (h : ∀ w ∈ words, c ∉ w) : c ∉ separator.intercalate words :=
  fun hc => (mem_of_mem_intercalate hc).elim hs fun ⟨w, hw, hcw⟩ => h w hw hcw

/-- Words without the first character of their separator are known from their row. -/
theorem intercalate_injective : ∀ {words words' : List (List Char)},
    (∀ w ∈ words, w ≠ [] ∧ c ∉ w) → (∀ w ∈ words', w ≠ [] ∧ c ∉ w) →
      (c :: separator).intercalate words = (c :: separator).intercalate words' → words = words'
  | [], [], _, _, _ => rfl
  | [], [w], _, h', h | [w], [], h', _, h => by
    simp at h
    simp [h] at h'
  | [], w :: v :: words, _, h', h | w :: v :: words, [], h', _, h => by
    rw [List.intercalate_cons_cons] at h
    simp at h
  | [w], [w'], _, _, h => by
    simpa using h
  | [w], w' :: v' :: words', hw, _, h => by
    have hw : c ∉ w := (hw w List.mem_cons_self).2
    rw [List.intercalate_cons_cons] at h
    simp at h
    simp [h] at hw
  | w :: v :: words, [w'], _, hw', h => by
    have hw' : c ∉ w' := (hw' w' List.mem_cons_self).2
    rw [List.intercalate_cons_cons] at h
    simp at h
    simp [← h] at hw'
  | w :: v :: words, w' :: v' :: words', hw, hw', h => by
    rw [List.intercalate_cons_cons, List.intercalate_cons_cons, List.append_assoc,
      List.append_assoc, List.cons_append, List.cons_append] at h
    obtain ⟨hw, hwords⟩ := List.forall_mem_cons.mp hw
    obtain ⟨hw', hwords'⟩ := List.forall_mem_cons.mp hw'
    obtain ⟨rfl, hrest⟩ := append_cons_inj_of_front hw.2 hw'.2 h
    rw [intercalate_injective hwords hwords' (List.append_cancel_left hrest)]

/-! ## 2. Names -/

/-- The characters that separate words in a descriptor or in the line of a method. -/
def marks : List Char := [' ', ',', '(', ')', '[', ']', '.', ';', '/', '<']

/-- A name is one word: it has no mark in it, and is no keyword of a primitive type. So it is
with every identifier of the language. -/
structure IsWord (name : List Char) : Prop where
  ne_nil : name ≠ []
  not_mark : ∀ c ∈ name, c ∉ marks
  not_keyword : ∀ p : Primitive, name ≠ p.keyword.toList

/-- A name is that of a class in a package, as class files write it. -/
def IsQualified (name : List Char) : Prop :=
  ∃ segments : List (List Char), 2 ≤ segments.length ∧ (∀ s ∈ segments, IsWord s) ∧
    name = ['/'].intercalate segments

variable {name name' : List Char}

/-- Behind its last slash a qualified name is one word. -/
theorem IsQualified.exists_split (h : IsQualified name) :
    ∃ package simple, IsWord simple ∧ name = package ++ '/' :: simple := by
  obtain ⟨segments, hlength, hwords, rfl⟩ := h
  obtain ⟨others, simple, rfl⟩ : ∃ others simple, segments = others ++ [simple] :=
    ⟨_, _, (List.dropLast_concat_getLast (List.ne_nil_of_length_pos (by omega))).symm⟩
  obtain ⟨first, others, rfl⟩ := List.exists_cons_of_ne_nil (l := others) (by rintro rfl; simp at hlength)
  refine ⟨['/'].intercalate (first :: others), simple, hwords simple (by simp), ?_⟩
  clear hlength hwords
  induction others generalizing first with
  | nil => simp [List.intercalate_cons_cons]
  | cons second others ih =>
    rw [List.cons_append, List.cons_append, List.intercalate_cons_cons, ← List.cons_append, ih,
      List.intercalate_cons_cons, List.append_assoc, List.append_assoc, List.append_assoc]

/-- The only mark in a qualified name is the slash. -/
theorem IsQualified.not_mark (h : IsQualified name) {c : Char} (hc : c ∈ marks) (hne : c ≠ '/') :
    c ∉ name := by
  obtain ⟨segments, -, hwords, rfl⟩ := h
  exact not_mem_intercalate (by simpa using hne) fun w hw hcw => (hwords w hw).not_mark c hcw hc

theorem mem_dotted {c : Char} : c ∈ dotted name ↔ (c ∈ name ∧ c ≠ '/') ∨ (c = '.' ∧ '/' ∈ name) := by
  rw [dotted, List.mem_map]
  constructor
  · rintro ⟨d, hd, rfl⟩
    split_ifs with hslash
    · exact .inr ⟨rfl, hslash ▸ hd⟩
    · exact .inl ⟨hd, hslash⟩
  · rintro (⟨hc, hne⟩ | ⟨rfl, hslash⟩)
    · exact ⟨c, hc, if_neg hne⟩
    · exact ⟨'/', hslash, if_pos rfl⟩

/-- A name without dots is had back from its dotted form. -/
theorem map_dotted (h : '.' ∉ name) :
    (dotted name).map (fun c => if c = '.' then '/' else c) = name := by
  rw [dotted, List.map_map]
  refine (List.map_congr_left fun c hc => ?_).trans (List.map_id name)
  have hne : c ≠ '.' := fun e => h (e ▸ hc)
  by_cases hslash : c = '/' <;> simp [hslash, hne]

/-- Names without dots are known from their dotted forms. -/
theorem dotted_injective (h : '.' ∉ name) (h' : '.' ∉ name') (heq : dotted name = dotted name') :
    name = name' := by
  rw [← map_dotted h, ← map_dotted h', heq]

/-- Behind the last dot of its dotted form a qualified name is one word. -/
theorem IsQualified.exists_dotted_split (h : IsQualified name) :
    ∃ package simple, IsWord simple ∧ dotted name = package ++ '.' :: simple := by
  obtain ⟨package, simple, hsimple, rfl⟩ := h.exists_split
  refine ⟨dotted package, simple, hsimple, ?_⟩
  have hslash : ∀ c ∈ simple, c ≠ '/' := fun c hc e => hsimple.not_mark c hc (e ▸ by decide)
  have hword : dotted simple = simple :=
    (List.map_congr_left fun c hc => if_neg (hslash c hc)).trans (List.map_id simple)
  rw [dotted, List.map_append, List.map_cons, if_pos rfl, ← dotted, ← dotted, hword]

/-- A qualified name is written without `java.lang`, and is one word then, or as it stands. -/
theorem IsQualified.simplifyName_cases (h : IsQualified name) :
    (IsWord (simplifyName (dotted name)) ∧
        dotted name = languagePackage ++ simplifyName (dotted name)) ∨
      simplifyName (dotted name) = dotted name := by
  obtain ⟨package, simple, hsimple, hdotted⟩ := h.exists_dotted_split
  unfold simplifyName
  split_ifs with hlang
  · rw [Bool.and_eq_true, List.isPrefixOf_iff_prefix, Bool.not_eq_true', List.contains_eq_mem,
      decide_eq_false_iff_not] at hlang
    obtain ⟨⟨rest, hrest⟩, hplain⟩ := hlang
    rw [← hrest, List.drop_left] at hplain ⊢
    refine .inl ⟨?_, rfl⟩
    -- What is left behind the last dot of both spellings is the same word.
    have hcut : "java.lang".toList ++ '.' :: rest = package ++ '.' :: simple := by
      rw [← hdotted, ← hrest]
      rfl
    have hdot : '.' ∉ simple := fun hc => hsimple.not_mark _ hc (by decide)
    exact (append_cons_inj_of_back hplain hdot hcut).2 ▸ hsimple
  · exact .inr rfl

/-- A dot tells whether a written name is the whole one. -/
theorem IsQualified.dot_mem_dotted (h : IsQualified name) : '.' ∈ dotted name := by
  obtain ⟨package, simple, -, hdotted⟩ := h.exists_dotted_split
  simp [hdotted]

theorem IsWord.dot_not_mem (h : IsWord name) : '.' ∉ name :=
  fun hc => h.not_mark _ hc (by decide)

/-- A qualified name is known from its written form. -/
theorem IsQualified.simplifyName_injective (h : IsQualified name) (h' : IsQualified name')
    (heq : simplifyName (dotted name) = simplifyName (dotted name')) : name = name' := by
  refine dotted_injective (h.not_mark (by decide) (by decide))
    (h'.not_mark (by decide) (by decide)) ?_
  rcases h.simplifyName_cases with ⟨hs, hd⟩ | hs <;>
    rcases h'.simplifyName_cases with ⟨hs', hd'⟩ | hs'
  · rw [hd, hd', heq]
  · exact absurd h'.dot_mem_dotted (hs' ▸ heq ▸ hs.dot_not_mem)
  · exact absurd h.dot_mem_dotted (hs ▸ heq ▸ hs'.dot_not_mem)
  · rw [← hs, ← hs', heq]

theorem keyword_injective {p p' : Primitive} (h : p.keyword = p'.keyword) : p = p' := by
  revert h
  cases p <;> cases p' <;> decide

theorem dot_not_mem_keyword (p : Primitive) : '.' ∉ p.keyword.toList := by
  cases p <;> decide

/-- No written name is a keyword. -/
theorem IsQualified.simplifyName_ne_keyword (h : IsQualified name) (p : Primitive) :
    simplifyName (dotted name) ≠ p.keyword.toList := by
  intro heq
  rcases h.simplifyName_cases with ⟨hs, -⟩ | hs
  · exact hs.not_keyword p heq
  · have hdot := h.dot_mem_dotted
    rw [← hs, heq] at hdot
    exact dot_not_mem_keyword p hdot

/-- The only mark in a written name is the dot. -/
theorem IsQualified.not_mark_simplifyName (h : IsQualified name) {c : Char} (hc : c ∈ marks)
    (hne : c ≠ '.') : c ∉ simplifyName (dotted name) := by
  intro hmem
  have hmem : c ∈ dotted name := by
    rw [simplifyName] at hmem
    split_ifs at hmem
    · exact List.mem_of_mem_drop hmem
    · exact hmem
  rcases mem_dotted.mp hmem with ⟨hname, hslash⟩ | ⟨hdot, -⟩
  · exact h.not_mark hc hslash hname
  · exact hne hdot

/-- A written name ends in a word. -/
theorem IsQualified.exists_simplifyName_split (h : IsQualified name) :
    ∃ front simple, IsWord simple ∧ simplifyName (dotted name) = front ++ simple := by
  rcases h.simplifyName_cases with ⟨hs, -⟩ | hs
  · exact ⟨[], _, hs, rfl⟩
  · obtain ⟨package, simple, hsimple, hdotted⟩ := h.exists_dotted_split
    exact ⟨package ++ ['.'], simple, hsimple, by rw [hs, hdotted, List.append_cons]⟩

end Descriptor

open Descriptor

/-! ## 3. Types -/

namespace JavaType

/-- A type is one of those that descriptors spell, and its class, if it has one, lies in a
package. -/
inductive IsPlain : JavaType → Prop where
  | primitive (p : Primitive) : IsPlain (.primitive p)
  | array {element : JavaType} : element.IsPlain → IsPlain (.array element)
  | declared {name : List Char} : IsQualified name → IsPlain (.declared (.last name .absent))

/-- The written form of a type in place of a last parameter, with three dots for the brackets
of an array. -/
def renderLast : JavaType → List Char
  | .array element => element.render ++ ['.', '.', '.']
  | type => type.render

theorem render_declared {name : List Char} (h : IsQualified name) :
    (declared (.last name .absent)).render = simplifyName (dotted name) := by
  rw [render, Segments.renderOuter, Arguments.render, List.append_nil,
    simplifyName_dotted (h.not_mark (by decide) (by decide))]

namespace IsPlain

variable {type type' : JavaType}

theorem isWellFormed (h : type.IsPlain) : type.IsWellFormed := by
  induction h with
  | primitive p => trivial
  | array _ ih => exact ih
  | declared hname =>
    obtain ⟨package, simple, hsimple, hsplit⟩ := hname.exists_split
    refine ⟨⟨by simp [hsplit], fun c hc hstop => ?_⟩, trivial⟩
    have hmark : c ∈ marks ∧ c ≠ '/' := by
      revert hstop
      simp only [List.mem_cons, List.not_mem_nil, or_false]
      rintro (rfl | rfl | rfl) <;> decide
    exact hname.not_mark hmark.1 hmark.2 hc

/-- A written type has no marks but dots and brackets, and brackets only as an array. -/
theorem not_mark (h : type.IsPlain) {c : Char} (hc : c ∈ marks)
    (hne : c ∉ ['.', '[', ']']) : c ∉ type.render := by
  induction h with
  | primitive p =>
    have hnone : marks.all fun c => ['.', '[', ']'].contains c || !p.keyword.toList.contains c := by
      cases p <;> decide
    simpa [render, hne] using List.all_eq_true.mp hnone c hc
  | array _ ih =>
    rw [render, List.mem_append, not_or]
    exact ⟨ih, fun hb => hne (List.mem_cons_of_mem _ hb)⟩
  | declared hname =>
    rw [render_declared hname]
    exact hname.not_mark_simplifyName hc fun e => hne (e ▸ List.mem_cons_self)

theorem ne_nil (h : type.IsPlain) : type.render ≠ [] := by
  cases h with
  | primitive p => cases p <;> decide
  | array _ => simp [render]
  | declared hname =>
    obtain ⟨front, simple, hsimple, hsplit⟩ := hname.exists_simplifyName_split
    rw [render_declared hname, hsplit]
    exact List.append_ne_nil_of_right_ne_nil _ hsimple.ne_nil

/-- No written type ends in a dot. -/
theorem getLast?_ne_dot (h : type.IsPlain) : type.render.getLast? ≠ some '.' := by
  cases h with
  | primitive p => cases p <;> decide
  | array _ => simp [render]
  | declared hname =>
    obtain ⟨front, simple, hsimple, hsplit⟩ := hname.exists_simplifyName_split
    rw [render_declared hname, hsplit, List.getLast?_append_of_ne_nil _ hsimple.ne_nil]
    exact fun hdot => hsimple.dot_not_mem (List.mem_of_getLast? hdot)

/-- Only arrays have brackets. -/
theorem bracket_not_mem (h : type.IsPlain) (harray : ∀ element, type ≠ .array element) :
    ']' ∉ type.render := by
  cases h with
  | primitive p => cases p <;> decide
  | array _ => exact absurd rfl (harray _)
  | declared hname =>
    rw [render_declared hname]
    exact hname.not_mark_simplifyName (by decide) (by decide)

/-- Types are known from their written forms. -/
theorem render_injective (h : type.IsPlain) (h' : type'.IsPlain)
    (heq : type.render = type'.render) : type = type' := by
  have hbracket : ∀ element : JavaType, ']' ∈ (JavaType.array element).render := by simp [render]
  induction h generalizing type' with
  | primitive p =>
    cases h' with
    | primitive p' =>
      rw [render, render, String.toList_inj] at heq
      rw [keyword_injective heq]
    | @array element _ =>
      exact absurd (heq ▸ hbracket element) ((primitive p).bracket_not_mem nofun)
    | declared hname' =>
      rw [render_declared hname'] at heq
      exact absurd heq.symm (hname'.simplifyName_ne_keyword p)
  | @array element helement ih =>
    by_cases harray : ∀ element', type' ≠ .array element'
    · exact absurd (heq ▸ hbracket element) (h'.bracket_not_mem harray)
    · cases h' with
      | primitive p' => exact absurd nofun harray
      | declared hname' => exact absurd nofun harray
      | array helement' =>
        rw [render, render] at heq
        rw [ih helement' (List.append_cancel_right heq)]
  | declared hname =>
    cases h' with
    | primitive p' =>
      rw [render_declared hname] at heq
      exact absurd heq (hname.simplifyName_ne_keyword p')
    | @array element _ =>
      exact absurd (heq ▸ hbracket element) ((declared hname).bracket_not_mem nofun)
    | declared hname' =>
      rw [render_declared hname, render_declared hname'] at heq
      rw [hname.simplifyName_injective hname' heq]

/-- A type is known from its written form, also where three dots stand for the brackets of an
array, or may do so. -/
theorem written_injective (h : type.IsPlain) (h' : type'.IsPlain)
    {written : List Char} (hw : written = type.render ∨ written = type.renderLast)
    (hw' : written = type'.render ∨ written = type'.renderLast) : type = type' := by
  -- Either nothing was replaced, or the text ends in a dot.
  have hcases : ∀ {t : JavaType}, written = t.render ∨ written = t.renderLast →
      written = t.render ∨ ∃ element, t = .array element ∧
        written = element.render ++ ['.', '.', '.'] := by
    rintro t (ht | ht)
    · exact .inl ht
    · cases t with
      | array element => exact .inr ⟨element, rfl, ht⟩
      | _ => exact .inl ht
  have hdots : ∀ element : JavaType, (element.render ++ ['.', '.', '.']).getLast? = some '.' := by
    simp
  rcases hcases hw with hplain | ⟨element, rfl, hlast⟩ <;>
    rcases hcases hw' with hplain' | ⟨element', rfl, hlast'⟩
  · exact h.render_injective h' (hplain ▸ hplain')
  · exact absurd (hplain ▸ hlast' ▸ hdots element') h.getLast?_ne_dot
  · exact absurd (hplain' ▸ hlast ▸ hdots element) h'.getLast?_ne_dot
  · cases h with
    | array helement =>
      cases h' with
      | array helement' =>
        rw [helement.render_injective helement' (List.append_cancel_right (hlast ▸ hlast'))]

end IsPlain

end JavaType

/-! ## 4. Parameters -/

namespace Descriptor

theorem withEllipsis_render {type : JavaType} (h : type.IsPlain) :
    withEllipsis (String.ofList type.render) = String.ofList type.renderLast := by
  have hkeep : ∀ {t : JavaType}, ']' ∉ t.render →
      withEllipsis (String.ofList t.render) = String.ofList t.render := by
    intro t ht
    rw [withEllipsis, String.toList_ofList, if_neg]
    rw [List.isSuffixOf_iff_suffix]
    exact fun hsuffix => ht (hsuffix.subset (by simp))
  cases h with
  | array helement =>
    rw [withEllipsis, String.toList_ofList, JavaType.render, JavaType.renderLast]
    simp
  | primitive p => exact hkeep ((JavaType.IsPlain.primitive p).bracket_not_mem (by simp))
  | declared hname => exact hkeep ((JavaType.IsPlain.declared hname).bracket_not_mem (by simp))

/-- Lists are known from what they are mapped to, also where the last elements are changed in
ways of their own. -/
theorem changeLast_map_injective {α β : Type} {P : α → Prop} {g : α → β} {f f' : β → β}
    (hg : ∀ a a', P a → P a' → g a = g a' → a = a')
    (hf : ∀ a a', P a → P a' → f (g a) = f' (g a') → a = a') :
    ∀ {l l' : List α}, (∀ a ∈ l, P a) → (∀ a ∈ l', P a) →
      changeLast f (l.map g) = changeLast f' (l'.map g) → l = l'
  | [], [], _, _, _ => rfl
  | [a], [a'], h, h', heq => by
    rw [hf a a' (h a List.mem_cons_self) (h' a' List.mem_cons_self) (List.cons.inj heq).1]
  | a :: b :: l, a' :: b' :: l', h, h', heq => by
    obtain ⟨ha, hl⟩ := List.forall_mem_cons.mp h
    obtain ⟨ha', hl'⟩ := List.forall_mem_cons.mp h'
    obtain ⟨hhead, htail⟩ := List.cons.inj heq
    rw [hg a a' ha ha' hhead, changeLast_map_injective hg hf hl hl' htail]
  | [], [a'], _, _, heq | [], a' :: b' :: l', _, _, heq | [a], [], _, _, heq
  | a :: b :: l, [], _, _, heq => by cases heq
  | [a], a' :: b' :: [], _, _, heq | [a], a' :: b' :: c' :: l', _, _, heq
  | a :: b :: [], [a'], _, _, heq | a :: b :: c :: l, [a'], _, _, heq => by
    simp [changeLast] at heq

theorem changeLast_id {α : Type} (l : List α) : changeLast id l = l := by
  induction l using changeLast.induct <;> simp_all [changeLast]

/-- The change to the last parameter of a method. -/
def lastChange (isVarargs : Bool) : String → String := if isVarargs then withEllipsis else id

theorem parameters_texts (isVarargs : Bool) (m : MethodType) :
    (m.texts.withVarargs isVarargs).parameters =
      changeLast (lastChange isVarargs) (m.parameters.map fun t => String.ofList t.render) := by
  cases isVarargs with
  | false => exact (changeLast_id _).symm
  | true => rfl

theorem exists_lastChange (isVarargs : Bool) {type : JavaType} (h : type.IsPlain) :
    ∃ written, (written = type.render ∨ written = type.renderLast) ∧
      lastChange isVarargs (String.ofList type.render) = String.ofList written := by
  cases isVarargs with
  | false => exact ⟨_, .inl rfl, rfl⟩
  | true => exact ⟨_, .inr rfl, withEllipsis_render h⟩

/-- The parameters of a method are known from their written types, whichever of two methods has
a variable count of arguments. -/
theorem parameters_injective {isVarargs isVarargs' : Bool} {m m' : MethodType}
    (h : ∀ t ∈ m.parameters, t.IsPlain) (h' : ∀ t ∈ m'.parameters, t.IsPlain)
    (heq : (m.texts.withVarargs isVarargs).parameters =
      (m'.texts.withVarargs isVarargs').parameters) : m.parameters = m'.parameters := by
  rw [parameters_texts, parameters_texts] at heq
  refine changeLast_map_injective (P := JavaType.IsPlain) (fun t t' ht ht' htext => ?_)
    (fun t t' ht ht' htext => ?_) h h' heq
  · exact ht.render_injective ht' (String.ofList_injective htext)
  · obtain ⟨written, hw, hchange⟩ := exists_lastChange isVarargs ht
    obtain ⟨written', hw', hchange'⟩ := exists_lastChange isVarargs' ht'
    obtain rfl : written = written' :=
      String.ofList_injective (hchange.symm.trans (htext.trans hchange'))
    exact ht.written_injective ht' hw hw'

/-- The written parameters of a method are words without the first separator of their row. -/
theorem forall_mem_parameters {isVarargs : Bool} {m : MethodType}
    (h : ∀ t ∈ m.parameters, t.IsPlain) :
    ∀ s ∈ (m.texts.withVarargs isVarargs).parameters, s.toList ≠ [] ∧ ',' ∉ s.toList := by
  have hellipsis : ∀ s : String, s.toList ≠ [] ∧ ',' ∉ s.toList →
      (withEllipsis s).toList ≠ [] ∧ ',' ∉ (withEllipsis s).toList := by
    intro s hs
    rw [withEllipsis]
    split_ifs
    · have hfront : ',' ∉ s.toList.take (s.toList.length - 2) :=
        fun hc => hs.2 (List.mem_of_mem_take hc)
      simpa using hfront
    · exact hs
  rw [parameters_texts]
  refine forall_mem_changeLast (P := fun s : String => s.toList ≠ [] ∧ ',' ∉ s.toList)
    (fun s hs => ?_) fun s hs => ?_
  · cases isVarargs with
    | false => exact hs
    | true => exact hellipsis s hs
  · obtain ⟨t, ht, rfl⟩ := List.mem_map.mp hs
    rw [String.toList_ofList]
    exact ⟨(h t ht).ne_nil, (h t ht).not_mark (by decide) (by decide)⟩

end Descriptor

end ApiSurface
