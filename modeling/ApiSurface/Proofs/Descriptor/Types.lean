/-
ApiSurface.Proofs.Descriptor.Types — a type is read exactly where one is spelled.

What `scanType` reads is spelled by a well-formed type, and its text is the written form of
that type (`scanType_sound`). A well-formed type is read from its spelled form, whatever
follows it (`scanType_spell`). Both go along the five parsers, the first by the depth and the
second by the tree. The parsers keep no tree, so the first one finds it.

A name is written by the places of its slashes here, and by a prefix of its dotted form in
the parser. These agree where the name has no dots (`simplifyName_dotted`).

The depth bounds nothing: a spelled form of `n` characters needs no more than `2 * n`
levels, and beyond `2 * n + 1` levels the outcome on a text of `n` characters is always
the same, whether it is a type or a flaw (`scanType_of_le`).
-/
import ApiSurface.Proofs.Descriptor.Grammar
import ApiSurface.Proofs.Outcome

namespace ApiSurface

namespace Descriptor

/-! ## 1. Class names -/

/-- Dots in place of slashes. -/
def dotted (name : List Char) : List Char :=
  name.map fun c => if c = '/' then '.' else c

theorem binaryName_ofList (name : List Char) :
    binaryName (String.ofList name) = String.ofList (dotted name) := by
  rw [binaryName, String.toList_ofList, dotted]

theorem dotted_eq_intercalate (name : List Char) :
    dotted name = ['.'].intercalate (name.splitOn '/') := by
  induction name with
  | nil => rfl
  | cons c name ih =>
    have hne := List.splitOn_ne_nil '/' name
    obtain ⟨part, parts, hparts⟩ := List.exists_cons_of_ne_nil hne
    rw [hparts] at ih
    rw [List.splitOn_eq_splitOnP] at hparts ⊢
    rw [dotted, List.map_cons, ← dotted, ih, List.splitOnP_cons_eq_if_modifyHead, hparts]
    by_cases hc : c = '/'
    · simp [hc]
    · cases parts <;> simp [hc]

theorem mem_of_mem_splitOn {name part : List Char} (h : part ∈ name.splitOn '/') {c : Char}
    (hc : c ∈ part) : c ∈ name := by
  have hname : ['/'].intercalate (name.splitOn '/') = name := List.intercalate_splitOn '/'
  rw [← hname]
  generalize name.splitOn '/' = parts at h
  induction parts with
  | nil => cases h
  | cons first parts ih =>
    cases parts with
    | nil => simpa [List.mem_singleton.mp h] using hc
    | cons second parts =>
      rw [List.intercalate_cons_cons, List.mem_append, List.mem_append]
      rcases List.mem_cons.mp h with rfl | h
      · exact .inl (.inl hc)
      · exact .inr (ih h)

/-- The name in source text of a class whose name has no dots. -/
theorem simplifyName_dotted {name : List Char} (h : '.' ∉ name) :
    simplifyName (dotted name) = sourceName name := by
  have hparts : ∀ part ∈ name.splitOn '/', '.' ∉ part :=
    fun part hpart hdot => h (mem_of_mem_splitOn hpart hdot)
  have hne := List.splitOn_ne_nil '/' name
  have htext : ∀ simple, ['.'].intercalate [['j', 'a', 'v', 'a'], ['l', 'a', 'n', 'g'], simple] =
      languagePackage ++ simple := by
    have hlang : languagePackage = ['j', 'a', 'v', 'a', '.', 'l', 'a', 'n', 'g', '.'] := rfl
    simp [hlang]
  rw [dotted_eq_intercalate]
  unfold sourceName
  generalize name.splitOn '/' = parts at hparts hne
  split
  · next simple =>
    have hdot : '.' ∉ simple := hparts simple (by simp)
    rw [htext, simplifyName, List.drop_left, if_pos]
    simp [hdot]
  · next hother =>
    rw [simplifyName, if_neg]
    rw [Bool.and_eq_true, List.isPrefixOf_iff_prefix, Bool.not_eq_true', List.contains_eq_mem,
      decide_eq_false_iff_not]
    rintro ⟨⟨simple, hsimple⟩, hdot⟩
    rw [← hsimple, List.drop_left] at hdot
    -- The dots cut both spellings into the same parts.
    refine hother simple ?_
    have hsplit : (languagePackage ++ simple).splitOn '.' =
        [['j', 'a', 'v', 'a'], ['l', 'a', 'n', 'g'], simple] := by
      rw [← htext simple]
      exact List.splitOn_intercalate '.' (by simp [hdot]) (by simp)
    rw [← hsplit, hsimple, List.splitOn_intercalate '.' hparts hne]

/-! ## 2. Names and single characters -/

theorem expect_eq_ok {c : Char} {s rest : List Char} {u : Unit} :
    expect c s = .ok (u, rest) ↔ s = c :: rest := by
  cases s with
  | nil => simp [expect]
  | cons d s =>
    by_cases h : d = c
    · simp [expect, h, eq_comm]
    · simp [expect, h]

theorem identifier_eq_ok {stops s name rest : List Char} :
    identifier stops s = .ok (name, rest) ↔
      IsName stops name ∧ s = name ++ rest ∧ ∃ c r, rest = c :: r ∧ c ∈ stops := by
  constructor
  · intro h
    unfold identifier at h
    dsimp only at h
    split_ifs at h with he
    cases h
    rw [Bool.or_eq_true, not_or, List.isEmpty_iff, List.isEmpty_iff] at he
    refine ⟨⟨he.1, fun c hc => ?_⟩, List.takeWhile_append_dropWhile.symm, ?_⟩
    · simpa using List.all_eq_true.mp (List.all_takeWhile (l := s)) c hc
    · obtain ⟨c, r, hcr⟩ := List.exists_cons_of_ne_nil he.2
      have hstop := List.head_dropWhile_not (!stops.contains ·) he.2
      simp only [hcr, List.head_cons] at hstop
      exact ⟨c, r, hcr, by simpa using hstop⟩
  · rintro ⟨⟨hne, hname⟩, rfl, c, r, rfl, hstop⟩
    have hall : ∀ d ∈ name, (!stops.contains d) = true := fun d hd => by simpa using hname d hd
    have htake : (name ++ c :: r).takeWhile (!stops.contains ·) = name := by
      rw [List.takeWhile_append_of_pos hall]
      simp [hstop]
    have hdrop : (name ++ c :: r).dropWhile (!stops.contains ·) = c :: r := by
      rw [List.dropWhile_append_of_pos hall]
      simp [hstop]
    have he : name.isEmpty = false := List.isEmpty_eq_false_iff.mpr hne
    simp only [identifier, htake, hdrop, he, List.isEmpty_cons, Bool.or_self, Bool.false_eq_true,
      if_false]

theorem keyword?_eq_some {c : Char} {word : String} :
    keyword? c = some word ↔ ∃ p : Primitive, p.letter = c ∧ p.keyword = word := by
  constructor
  · intro h
    unfold keyword? at h
    split at h <;> cases h
    exacts [⟨.byte, rfl, rfl⟩, ⟨.char, rfl, rfl⟩, ⟨.double, rfl, rfl⟩, ⟨.float, rfl, rfl⟩,
      ⟨.int, rfl, rfl⟩, ⟨.long, rfl, rfl⟩, ⟨.short, rfl, rfl⟩, ⟨.boolean, rfl, rfl⟩,
      ⟨.void, rfl, rfl⟩]
  · rintro ⟨p, rfl, rfl⟩
    cases p <;> rfl

/-! ## 3. What is read is spelled -/

/-- The text of a bounded argument before others is that of its mark and its type. -/
theorem map_toList_bounded (bound : Bound) {type : JavaType} {list : ArgumentList}
    {text : String} {texts : List String}
    (htext : text.toList = type.render) (htexts : texts.map String.toList = list.render) :
    ((bound.words ++ text) :: texts).map String.toList =
      (ArgumentList.bounded bound type list).render := by
  rw [List.map_cons, String.toList_append, htext, htexts, ArgumentList.render]

mutual

/-- What was taken for a type spells one, and the text is its written form. -/
theorem scanType_sound : ∀ {depth : Nat} {s rest : List Char} {text : String},
    scanType depth s = .ok (text, rest) →
      ∃ type : JavaType, type.IsWellFormed ∧ s = type.spell ++ rest ∧ text.toList = type.render
  | 0, s, _, _, h => by
    rw [scanType] at h
    cases h
  | _ + 1, [], _, _, h => by
    rw [scanType] at h
    cases h
  | depth + 1, c :: s, rest, text, h => by
    rw [scanType] at h
    cases hp : keyword? c with
    | some word =>
      simp only [hp] at h
      cases h
      obtain ⟨p, rfl, rfl⟩ := keyword?_eq_some.mp hp
      exact ⟨.primitive p, trivial, rfl, by rw [JavaType.render]⟩
    | none =>
      simp only [hp] at h
      split_ifs at h with harray hvariable hclass
      · rw [bind_eq_ok] at h
        obtain ⟨⟨element, rest'⟩, he, h⟩ := h
        cases h
        obtain ⟨type, hw, rfl, htext⟩ := scanType_sound he
        refine ⟨.array type, hw, by rw [harray]; rfl, ?_⟩
        rw [String.toList_append, htext, JavaType.render]
        rfl
      · rw [bind_eq_ok] at h
        obtain ⟨⟨name, rest'⟩, hn, h⟩ := h
        rw [bind_eq_ok] at h
        obtain ⟨⟨u, rest''⟩, hs, h⟩ := h
        cases h
        obtain ⟨hw, rfl, -⟩ := identifier_eq_ok.mp hn
        obtain rfl : rest' = _ := expect_eq_ok.mp hs
        refine ⟨.variable name, hw, by rw [hvariable]; simp [JavaType.spell], ?_⟩
        rw [String.toList_ofList, JavaType.render]
      · obtain ⟨segments, hw, rfl, htext⟩ := scanClass_sound h
        exact ⟨.declared segments, hw, by rw [hclass]; rfl, by rw [htext, JavaType.render]⟩

theorem scanClass_sound : ∀ {depth : Nat} {s rest : List Char} {text : String},
    scanClass depth s = .ok (text, rest) →
      ∃ segments : Segments, segments.IsWellFormed ∧ s = segments.spell ++ rest ∧
        text.toList = segments.renderOuter
  | 0, s, _, _, h => by
    rw [scanClass] at h
    cases h
  | depth + 1, s, rest, text, h => by
    rw [scanClass, bind_eq_ok] at h
    obtain ⟨⟨name, rest₁⟩, hn, h⟩ := h
    rw [bind_eq_ok] at h
    obtain ⟨⟨argumentText, rest₂⟩, ha, h⟩ := h
    rw [bind_eq_ok] at h
    obtain ⟨⟨nested, rest₃⟩, hi, h⟩ := h
    rw [bind_eq_ok] at h
    obtain ⟨⟨u, rest₄⟩, hs, h⟩ := h
    rw [Except.ok.injEq, Prod.mk.injEq] at h
    obtain ⟨rfl, rfl⟩ := h
    obtain rfl : rest₃ = _ := expect_eq_ok.mp hs
    obtain ⟨hname, rfl, -⟩ := identifier_eq_ok.mp hn
    obtain ⟨arguments, hw, rfl, hargs⟩ := scanArguments_sound ha
    have hdot : '.' ∉ name := fun hc => hname.2 _ hc (by decide)
    rw [binaryName_ofList, simplifyTypeName, String.toList_ofList, simplifyName_dotted hdot]
    rcases scanNested_sound hi with ⟨rfl, htext⟩ | ⟨inner, hwi, rfl, htext⟩
    · exact ⟨.last name arguments, ⟨hname, hw⟩, by simp [Segments.spell],
        by simp [Segments.renderOuter, hargs, htext]⟩
    · exact ⟨.nested name arguments inner, ⟨hname, hw, hwi⟩, by simp [Segments.spell],
        by simp [Segments.renderOuter, hargs, htext]⟩

/-- Before a semicolon, nested names are none or those of further segments. -/
theorem scanNested_sound : ∀ {depth : Nat} {s rest : List Char} {text : String},
    scanNested depth s = .ok (text, ';' :: rest) →
      (s = ';' :: rest ∧ text.toList = []) ∨
        ∃ inner : Segments, inner.IsWellFormed ∧ s = '.' :: inner.spell ++ rest ∧
          text.toList = inner.renderInner
  | depth, s, rest, text, h => by
    unfold scanNested at h
    split at h
    · rw [bind_eq_ok] at h
      obtain ⟨⟨name, rest₁⟩, hn, h⟩ := h
      rw [bind_eq_ok] at h
      obtain ⟨⟨argumentText, rest₂⟩, ha, h⟩ := h
      rw [bind_eq_ok] at h
      obtain ⟨⟨nested, rest₃⟩, hi, h⟩ := h
      rw [Except.ok.injEq, Prod.mk.injEq] at h
      obtain ⟨rfl, rfl⟩ := h
      obtain ⟨hname, rfl, -⟩ := identifier_eq_ok.mp hn
      obtain ⟨arguments, hw, rfl, hargs⟩ := scanArguments_sound ha
      rcases scanNested_sound hi with ⟨rfl, htext⟩ | ⟨inner, hwi, rfl, htext⟩
      · exact .inr ⟨.last name arguments, ⟨hname, hw⟩, by simp [Segments.spell],
          by simp [Segments.renderInner, hargs, htext]⟩
      · exact .inr ⟨.nested name arguments inner, ⟨hname, hw, hwi⟩, by simp [Segments.spell],
          by simp [Segments.renderInner, hargs, htext]⟩
    · cases h
      exact .inl ⟨rfl, rfl⟩

theorem scanArguments_sound : ∀ {depth : Nat} {s rest : List Char} {text : String},
    scanArguments depth s = .ok (text, rest) →
      ∃ arguments : Arguments, arguments.IsWellFormed ∧ s = arguments.spell ++ rest ∧
        text.toList = arguments.render
  | depth, s, rest, text, h => by
    unfold scanArguments at h
    split at h
    · rw [bind_eq_ok] at h
      obtain ⟨⟨texts, rest'⟩, hl, h⟩ := h
      cases h
      obtain ⟨list, hw, rfl, htexts⟩ := scanArgumentList_sound hl
      refine ⟨.given list, hw, rfl, ?_⟩
      rw [String.toList_append, String.toList_append, String.toList_intercalate, htexts,
        Arguments.render]
      rfl
    · cases h
      exact ⟨.absent, trivial, rfl, by rw [Arguments.render]; rfl⟩

theorem scanArgumentList_sound : ∀ {depth : Nat} {s rest : List Char} {texts : List String},
    scanArgumentList depth s = .ok (texts, rest) →
      ∃ list : ArgumentList, list.IsWellFormed ∧ s = list.spell ++ rest ∧
        texts.map String.toList = list.render
  | 0, s, _, _, h => by
    rw [scanArgumentList] at h
    cases h
  | depth + 1, s, rest, texts, h => by
    unfold scanArgumentList at h
    split at h
    · cases h
      exact ⟨.nil, trivial, rfl, by rw [ArgumentList.render]; rfl⟩
    · rw [bind_eq_ok] at h
      obtain ⟨⟨texts', rest'⟩, hl, h⟩ := h
      cases h
      obtain ⟨list, hw, rfl, htexts⟩ := scanArgumentList_sound hl
      exact ⟨.any list, hw, rfl, by rw [ArgumentList.render, ← htexts]; rfl⟩
    all_goals
      rw [bind_eq_ok] at h
      obtain ⟨⟨text, rest'⟩, ht, h⟩ := h
      rw [bind_eq_ok] at h
      obtain ⟨⟨texts', rest''⟩, hl, h⟩ := h
      cases h
      obtain ⟨type, hwt, rfl, htext⟩ := scanType_sound ht
      obtain ⟨list, hwl, rfl, htexts⟩ := scanArgumentList_sound hl
    · exact ⟨.bounded .upper type list, ⟨hwt, hwl⟩, by simp [ArgumentList.spell, Bound.spell],
        map_toList_bounded .upper htext htexts⟩
    · exact ⟨.bounded .lower type list, ⟨hwt, hwl⟩, by simp [ArgumentList.spell, Bound.spell],
        map_toList_bounded .lower htext htexts⟩
    · exact ⟨.bounded .exact type list, ⟨hwt, hwl⟩, by simp [ArgumentList.spell, Bound.spell],
        by rw [← map_toList_bounded .exact htext htexts, Bound.words, String.empty_append]⟩

end

/-! ## 4. What is spelled is read -/

/-- The characters that a type starts with. -/
def typeStarts : List Char := Primitive.all.map Primitive.letter ++ ['[', 'T', 'L']

theorem exists_spell_eq_cons : ∀ type : JavaType,
    ∃ c ∈ typeStarts, ∃ tail, type.spell = c :: tail
  | .primitive p => ⟨p.letter, by cases p <;> decide, [], rfl⟩
  | .array element => ⟨'[', by decide, element.spell, rfl⟩
  | .variable name => ⟨'T', by decide, name ++ [';'], rfl⟩
  | .declared segments => ⟨'L', by decide, segments.spell, rfl⟩

theorem length_spell_pos (type : JavaType) : 0 < type.spell.length := by
  obtain ⟨c, -, tail, h⟩ := exists_spell_eq_cons type
  simp [h]

theorem length_spellList_pos (list : ArgumentList) : 0 < list.spell.length := by
  cases list with
  | nil => simp [ArgumentList.spell]
  | any rest => simp [ArgumentList.spell]
  | bounded bound type rest =>
    have := length_spell_pos type
    simp only [ArgumentList.spell, List.length_append]
    omega

theorem scanArguments_of_head_ne {depth : Nat} {s : List Char} (h : s.head? ≠ some '<') :
    scanArguments depth s = .ok ("", s) := by
  unfold scanArguments
  split
  · simp at h
  · rfl

theorem scanNested_of_head_ne {depth : Nat} {s : List Char} (h : s.head? ≠ some '.') :
    scanNested depth s = .ok ("", s) := by
  unfold scanNested
  split
  · simp at h
  · rfl

theorem ofList_dollar (name : List Char) :
    String.ofList ('$' :: name) = "$" ++ String.ofList name := by
  rw [← List.singleton_append, String.ofList_append]

/-- The name of a segment ends before its arguments, or before what follows the segment. -/
theorem identifier_segment {name : List Char} (h : IsSegment name)
    (arguments : Arguments) {c : Char} (hc : c ∈ segmentStops) (rest : List Char) :
    identifier segmentStops (name ++ (arguments.spell ++ c :: rest)) =
      .ok (name, arguments.spell ++ c :: rest) := by
  refine identifier_eq_ok.mpr ⟨h, rfl, ?_⟩
  cases arguments with
  | absent => exact ⟨c, rest, rfl, hc⟩
  | given list => exact ⟨'<', list.spell ++ c :: rest, rfl, by decide⟩

mutual

/-- A well-formed type is read from its spelled form, whatever follows. -/
theorem scanType_spell : ∀ {type : JavaType} {depth : Nat} {rest : List Char},
    type.IsWellFormed → 2 * type.spell.length ≤ depth →
      scanType depth (type.spell ++ rest) = .ok (String.ofList type.render, rest)
  | type, 0, _, _, hd => by
    have := length_spell_pos type
    omega
  | .primitive p, depth + 1, rest, _, _ => by
    have hp : keyword? p.letter = some p.keyword := keyword?_eq_some.mpr ⟨p, rfl, rfl⟩
    rw [JavaType.spell, List.singleton_append, scanType, hp, JavaType.render, String.ofList_toList]
  | .array element, depth + 1, rest, hw, hd => by
    simp only [JavaType.spell, List.length_cons] at hd
    have he : scanType depth (element.spell ++ rest) = .ok (String.ofList element.render, rest) :=
      scanType_spell hw (by omega)
    have hp : keyword? '[' = none := rfl
    rw [JavaType.spell, List.cons_append, scanType, hp, JavaType.render, String.ofList_append]
    simp only [if_true, he]
    rfl
  | .variable name, depth + 1, rest, hw, _ => by
    have hn : identifier [';'] (name ++ ';' :: rest) = .ok (name, ';' :: rest) :=
      identifier_eq_ok.mpr ⟨hw, rfl, ';', rest, rfl, by simp⟩
    have hp : keyword? 'T' = none := rfl
    have hspell : (JavaType.variable name).spell ++ rest = 'T' :: (name ++ ';' :: rest) := by
      simp [JavaType.spell]
    rw [hspell, scanType, hp, JavaType.render]
    simp only [Char.reduceEq, if_false, if_true, hn]
    rfl
  | .declared segments, depth + 1, rest, hw, hd => by
    simp only [JavaType.spell, List.length_cons] at hd
    have hs : scanClass depth (segments.spell ++ rest) =
        .ok (String.ofList segments.renderOuter, rest) :=
      scanClass_spell hw (by omega)
    have hp : keyword? 'L' = none := rfl
    rw [JavaType.spell, List.cons_append, scanType, hp, JavaType.render]
    simp only [Char.reduceEq, if_false, if_true, hs]

theorem scanClass_spell : ∀ {segments : Segments} {depth : Nat} {rest : List Char},
    segments.IsWellFormed → 2 * segments.spell.length ≤ depth →
      scanClass depth (segments.spell ++ rest) = .ok (String.ofList segments.renderOuter, rest)
  | .last name arguments, 0, _, _, hd | .nested name arguments inner, 0, _, _, hd => by
    simp only [Segments.spell, List.length_append, List.length_cons] at hd
    omega
  | .last name arguments, depth + 1, rest, hw, hd => by
    simp only [Segments.spell, List.length_append, List.length_cons] at hd
    have hn := identifier_segment hw.1 arguments (c := ';') (by decide) rest
    have ha : scanArguments depth (arguments.spell ++ ';' :: rest) =
        .ok (String.ofList arguments.render, ';' :: rest) :=
      scanArguments_spell hw.2 (by omega) (by simp)
    have hi : scanNested depth (';' :: rest) = .ok ("", ';' :: rest) :=
      scanNested_of_head_ne (by simp)
    have hdot : '.' ∉ name := fun hc => hw.1.2 _ hc (by decide)
    rw [Segments.spell, List.append_assoc, List.append_assoc, List.singleton_append, scanClass, hn]
    simp only [bind, Except.bind, ha, hi]
    rw [binaryName_ofList, simplifyTypeName, String.toList_ofList, simplifyName_dotted hdot,
      Segments.renderOuter, String.ofList_append, String.append_empty]
    rfl
  | .nested name arguments inner, depth + 1, rest, hw, hd => by
    simp only [Segments.spell, List.length_append, List.length_cons] at hd
    have hn := identifier_segment hw.1 arguments (c := '.') (by decide) (inner.spell ++ rest)
    have ha : scanArguments depth (arguments.spell ++ '.' :: (inner.spell ++ rest)) =
        .ok (String.ofList arguments.render, '.' :: (inner.spell ++ rest)) :=
      scanArguments_spell hw.2.1 (by omega) (by simp)
    have hi : scanNested depth ('.' :: (inner.spell ++ rest)) =
        .ok (String.ofList inner.renderInner, ';' :: rest) :=
      scanNested_spell hw.2.2 (by omega)
    have hdot : '.' ∉ name := fun hc => hw.1.2 _ hc (by decide)
    rw [Segments.spell, List.append_assoc, List.append_assoc, List.cons_append, scanClass, hn]
    simp only [bind, Except.bind, ha, hi]
    rw [binaryName_ofList, simplifyTypeName, String.toList_ofList, simplifyName_dotted hdot,
      Segments.renderOuter, String.ofList_append, String.ofList_append]
    rfl

/-- The segments behind a dot are read up to their semicolon. -/
theorem scanNested_spell : ∀ {inner : Segments} {depth : Nat} {rest : List Char},
    inner.IsWellFormed → 2 * inner.spell.length ≤ depth →
      scanNested depth ('.' :: (inner.spell ++ rest)) =
        .ok (String.ofList inner.renderInner, ';' :: rest)
  | .last name arguments, 0, _, _, hd | .nested name arguments inner, 0, _, _, hd => by
    simp only [Segments.spell, List.length_append, List.length_cons] at hd
    omega
  | .last name arguments, depth + 1, rest, hw, hd => by
    simp only [Segments.spell, List.length_append, List.length_cons] at hd
    have hn := identifier_segment hw.1 arguments (c := ';') (by decide) rest
    have ha : scanArguments depth (arguments.spell ++ ';' :: rest) =
        .ok (String.ofList arguments.render, ';' :: rest) :=
      scanArguments_spell hw.2 (by omega) (by simp)
    have hi : scanNested depth (';' :: rest) = .ok ("", ';' :: rest) :=
      scanNested_of_head_ne (by simp)
    rw [Segments.spell, List.append_assoc, List.append_assoc, List.singleton_append, scanNested, hn]
    simp only [bind, Except.bind, ha, hi]
    rw [Segments.renderInner, String.ofList_append, ofList_dollar, String.append_empty]
  | .nested name arguments inner, depth + 1, rest, hw, hd => by
    simp only [Segments.spell, List.length_append, List.length_cons] at hd
    have hn := identifier_segment hw.1 arguments (c := '.') (by decide) (inner.spell ++ rest)
    have ha : scanArguments depth (arguments.spell ++ '.' :: (inner.spell ++ rest)) =
        .ok (String.ofList arguments.render, '.' :: (inner.spell ++ rest)) :=
      scanArguments_spell hw.2.1 (by omega) (by simp)
    have hi : scanNested depth ('.' :: (inner.spell ++ rest)) =
        .ok (String.ofList inner.renderInner, ';' :: rest) :=
      scanNested_spell hw.2.2 (by omega)
    rw [Segments.spell, List.append_assoc, List.append_assoc, List.cons_append, scanNested, hn]
    simp only [bind, Except.bind, ha, hi]
    rw [Segments.renderInner, String.ofList_append, String.ofList_append, ofList_dollar]

/-- Type arguments are read where no other bracket follows. -/
theorem scanArguments_spell : ∀ {arguments : Arguments} {depth : Nat} {rest : List Char},
    arguments.IsWellFormed → 2 * arguments.spell.length ≤ depth → rest.head? ≠ some '<' →
      scanArguments depth (arguments.spell ++ rest) = .ok (String.ofList arguments.render, rest)
  | .absent, _, _, _, _, hrest => by
    rw [Arguments.spell, List.nil_append, scanArguments_of_head_ne hrest, Arguments.render,
      String.ofList_nil]
  | .given list, 0, _, _, hd, _ => by
    simp [Arguments.spell] at hd
  | .given list, depth + 1, rest, hw, hd, _ => by
    simp only [Arguments.spell, List.length_cons] at hd
    have hl : scanArgumentList depth (list.spell ++ rest) =
        .ok (list.render.map String.ofList, rest) :=
      scanArgumentList_spell hw (by omega)
    have htext : ("<" ++ String.intercalate ", " (list.render.map String.ofList) ++ ">").toList =
        (Arguments.given list).render := by
      simp [Arguments.render, String.toList_intercalate, Function.comp_def]
    rw [Arguments.spell, List.cons_append, scanArguments, hl, ← htext, String.ofList_toList]
    rfl

theorem scanArgumentList_spell : ∀ {list : ArgumentList} {depth : Nat} {rest : List Char},
    list.IsWellFormed → 2 * list.spell.length ≤ depth →
      scanArgumentList depth (list.spell ++ rest) = .ok (list.render.map String.ofList, rest)
  | list, 0, _, _, hd => by
    have := length_spellList_pos list
    omega
  | .nil, depth + 1, rest, _, _ => by
    rw [ArgumentList.spell, List.singleton_append, scanArgumentList, ArgumentList.render]
    rfl
  | .any list, depth + 1, rest, hw, hd => by
    simp only [ArgumentList.spell, List.length_cons] at hd
    have hl : scanArgumentList depth (list.spell ++ rest) =
        .ok (list.render.map String.ofList, rest) :=
      scanArgumentList_spell hw (by omega)
    rw [ArgumentList.spell, List.cons_append, scanArgumentList, hl, ArgumentList.render]
    rfl
  | .bounded bound type list, depth + 1, rest, hw, hd => by
    have := length_spell_pos type
    have := length_spellList_pos list
    simp only [ArgumentList.spell, List.length_append] at hd
    have ht : scanType depth (type.spell ++ (list.spell ++ rest)) =
        .ok (String.ofList type.render, list.spell ++ rest) :=
      scanType_spell hw.1 (by omega)
    have hl : scanArgumentList depth (list.spell ++ rest) =
        .ok (list.render.map String.ofList, rest) :=
      scanArgumentList_spell hw.2 (by omega)
    rw [ArgumentList.render, List.map_cons, String.ofList_append, String.ofList_toList]
    cases bound with
    | exact =>
      obtain ⟨c, hc, tail, hspell⟩ := exists_spell_eq_cons type
      rw [ArgumentList.spell, Bound.spell, List.nil_append, List.append_assoc]
      unfold scanArgumentList
      split
      -- A type starts with none of the marks that the other branches look for.
      iterate 4
        next h =>
          rw [hspell, List.cons_append, List.cons.injEq] at h
          exact absurd (h.1 ▸ hc) (by decide)
      rw [ht]
      simp only [bind, Except.bind, hl]
      rw [Bound.words, String.empty_append]
    | upper | lower =>
      rw [ArgumentList.spell, Bound.spell, List.append_assoc, List.append_assoc, List.singleton_append,
        scanArgumentList, ht]
      simp only [bind, Except.bind, hl]
      rfl

end

/-- A type is read from the front of a text exactly where a well-formed one is spelled. -/
theorem scan_eq_ok {s rest : List Char} {text : String} :
    scan s = .ok (text, rest) ↔ ∃ type : JavaType, type.IsWellFormed ∧
      s = type.spell ++ rest ∧ text = String.ofList type.render := by
  constructor
  · intro h
    obtain ⟨type, hw, hs, htext⟩ := scanType_sound h
    exact ⟨type, hw, hs, by rw [← htext, String.ofList_toList]⟩
  · rintro ⟨type, hw, rfl, rfl⟩
    refine scanType_spell hw ?_
    rw [List.length_append]
    omega

theorem scan_spell {type : JavaType} (h : type.IsWellFormed) (rest : List Char) :
    scan (type.spell ++ rest) = .ok (String.ofList type.render, rest) :=
  scan_eq_ok.mpr ⟨type, h, rfl, rfl⟩

theorem length_lt_of_scan {s rest : List Char} {text : String} (h : scan s = .ok (text, rest)) :
    rest.length < s.length := by
  obtain ⟨type, -, rfl, -⟩ := scan_eq_ok.mp h
  have := length_spell_pos type
  rw [List.length_append]
  omega

/-! ## 5. Depth -/

mutual

/-- One more level changes nothing where the depth is enough for the text. -/
theorem scanType_succ : ∀ {depth : Nat} {s : List Char}, 2 * s.length + 1 ≤ depth →
    scanType (depth + 1) s = scanType depth s
  | 0, _, h => by omega
  | _ + 1, [], _ => by rw [scanType, scanType]
  | depth + 1, c :: s, h => by
    rw [List.length_cons] at h
    rw [scanType, scanType]
    cases keyword? c with
    | some word => rfl
    | none =>
      dsimp only
      split_ifs
      · exact bind_congr_ok (scanType_succ (by omega)) fun _ _ => rfl
      · rfl
      · exact scanClass_succ (by omega)
      · rfl

theorem scanClass_succ : ∀ {depth : Nat} {s : List Char}, 2 * s.length + 1 ≤ depth →
    scanClass (depth + 1) s = scanClass depth s
  | 0, _, h => by omega
  | depth + 1, s, h => by
    rw [scanClass, scanClass]
    refine bind_congr_ok rfl fun ⟨name, rest⟩ hn => ?_
    obtain ⟨hname, rfl, -⟩ := identifier_eq_ok.mp hn
    have := List.length_pos_iff.mpr hname.1
    rw [List.length_append] at h
    refine bind_congr_ok (scanArguments_succ (by omega)) fun ⟨text, rest'⟩ ha => ?_
    obtain ⟨arguments, -, rfl, -⟩ := scanArguments_sound ha
    rw [List.length_append] at h
    exact bind_congr_ok (scanNested_succ (by omega)) fun _ _ => rfl

theorem scanNested_succ : ∀ {depth : Nat} {s : List Char}, 2 * s.length + 1 ≤ depth →
    scanNested (depth + 1) s = scanNested depth s
  | 0, _, h => by omega
  | depth + 1, s, h => by
    by_cases hs : s.head? = some '.'
    · obtain ⟨s, rfl⟩ := List.head?_eq_some_iff.mp hs
      rw [List.length_cons] at h
      rw [scanNested, scanNested]
      refine bind_congr_ok rfl fun ⟨name, rest⟩ hn => ?_
      obtain ⟨-, rfl, -⟩ := identifier_eq_ok.mp hn
      rw [List.length_append] at h
      refine bind_congr_ok (scanArguments_succ (by omega)) fun ⟨text, rest'⟩ ha => ?_
      obtain ⟨arguments, -, rfl, -⟩ := scanArguments_sound ha
      rw [List.length_append] at h
      exact bind_congr_ok (scanNested_succ (by omega)) fun _ _ => rfl
    · rw [scanNested_of_head_ne hs, scanNested_of_head_ne hs]

theorem scanArguments_succ : ∀ {depth : Nat} {s : List Char}, 2 * s.length + 1 ≤ depth →
    scanArguments (depth + 1) s = scanArguments depth s
  | 0, _, h => by omega
  | depth + 1, s, h => by
    by_cases hs : s.head? = some '<'
    · obtain ⟨rest, rfl⟩ := List.head?_eq_some_iff.mp hs
      rw [List.length_cons] at h
      rw [scanArguments, scanArguments]
      exact bind_congr_ok (scanArgumentList_succ (by omega)) fun _ _ => rfl
    · rw [scanArguments_of_head_ne hs, scanArguments_of_head_ne hs]

theorem scanArgumentList_succ : ∀ {depth : Nat} {s : List Char}, 2 * s.length + 2 ≤ depth →
    scanArgumentList (depth + 1) s = scanArgumentList depth s
  | 0, _, h => by omega
  | depth + 1, s, h => by
    unfold scanArgumentList
    split
    · rfl
    · rw [List.length_cons] at h
      exact bind_congr_ok (scanArgumentList_succ (by omega)) fun _ _ => rfl
    all_goals
      try rw [List.length_cons] at h
      refine bind_congr_ok (scanType_succ (by omega)) fun ⟨text, rest⟩ ht => ?_
      obtain ⟨type, -, rfl, -⟩ := scanType_sound ht
      have := length_spell_pos type
      rw [List.length_append] at h
      exact bind_congr_ok (scanArgumentList_succ (by omega)) fun _ _ => rfl

end

/-- The depth of `scan` is as good as any greater one. -/
theorem scanType_of_le {depth : Nat} {s : List Char} (h : 2 * s.length + 1 ≤ depth) :
    scanType depth s = scan s := by
  induction depth, h using Nat.le_induction with
  | base => rfl
  | succ depth h ih => rw [scanType_succ h, ih]

end Descriptor

end ApiSurface
