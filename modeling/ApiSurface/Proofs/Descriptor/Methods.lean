/-
ApiSurface.Proofs.Descriptor.Methods — reading accepts exactly the grammar.

The parsers of rows read what the grammar puts in a row, up to the character behind
it. An empty bound is told from the next name by one character only, so the row of
type parameters that is skipped is the one whose empty bounds are not followed by the
start of a bound.

`rendered_iff_spelled` puts it all together: a text has a written form exactly when it
spells a type, the written form is that of the type, and any other text has a flaw.
No parser depends on how deep it may go.
-/
import ApiSurface.Proofs.Descriptor.Types

namespace ApiSurface

/-- The types of a method in source text, before the last parameter is changed. -/
def MethodType.texts (m : MethodType) : Descriptor.MethodText :=
  ⟨m.parameters.map fun type => String.ofList type.render, String.ofList m.result.render⟩

namespace Descriptor

/-! ## 1. Bounds -/

theorem startsBound_spell (type : JavaType) (rest : List Char) :
    startsBound (type.spell ++ rest) = type.isReference := by
  match type with
  | .primitive p => cases p <;> rfl
  | .array _ | .variable _ | .declared _ => rfl

theorem startsBound_eq_false_iff {s : List Char} :
    startsBound s = false ↔ ∀ c ∈ ['L', 'T', '['], s.head? ≠ some c := by
  cases s with
  | nil => simp [startsBound]
  | cons d rest =>
    rw [startsBound.eq_def]
    split <;> simp_all

theorem startsBound_append {name : List Char} (h : name ≠ []) (rest : List Char) :
    startsBound (name ++ rest) = startsBound name := by
  obtain ⟨c, tail, rfl⟩ := List.exists_cons_of_ne_nil h
  rw [List.cons_append]
  unfold startsBound
  split <;> simp_all

/-- Each part of a spelled form has at least one character. -/
theorem length_le_flatMap {α : Type} {f : α → List Char} {parts : List α}
    (h : ∀ part ∈ parts, f part ≠ []) : parts.length ≤ (parts.flatMap f).length := by
  induction parts with
  | nil => exact Nat.zero_le _
  | cons part parts ih =>
    obtain ⟨hpart, hparts⟩ := List.forall_mem_cons.mp h
    have := List.length_pos_iff.mpr hpart
    have := ih hparts
    rw [List.flatMap_cons, List.length_append, List.length_cons]
    omega

theorem spellBound_ne_nil (bound : Option JavaType) : spellBound bound ≠ [] := by
  cases bound <;> exact List.cons_ne_nil _ _

/-- Bounds end where no colon follows, and behind an empty one no bound starts. -/
structure BoundsEndAt (bounds : List (Option JavaType)) (rest : List Char) : Prop where
  each : ∀ bound, some bound ∈ bounds → bound.IsWellFormed ∧ bound.isReference = true
  last : bounds.getLast? = some none → startsBound rest = false
  head : rest.head? ≠ some ':'

namespace BoundsEndAt

variable {others : List (Option JavaType)} {rest : List Char}

theorem nil (h : rest.head? ≠ some ':') : BoundsEndAt [] rest :=
  ⟨by simp, by simp, h⟩

theorem cons_some {bound : JavaType} (h : BoundsEndAt others rest) (hw : bound.IsWellFormed)
    (hreference : bound.isReference = true) : BoundsEndAt (some bound :: others) rest where
  each b hb := by
    rcases List.mem_cons.mp hb with heq | hb
    · cases heq
      exact ⟨hw, hreference⟩
    · exact h.each b hb
  last hlast := by
    rw [List.getLast?_cons] at hlast
    refine h.last ?_
    cases hl : others.getLast? <;> simp_all
  head := h.head

/-- An empty bound may stand before others, and at the end where no bound starts. -/
theorem cons_none (h : BoundsEndAt others rest)
    (hstart : startsBound (others.flatMap spellBound ++ rest) = false) :
    BoundsEndAt (none :: others) rest where
  each b hb := h.each b (by simpa using hb)
  last hlast := by
    cases others with
    | nil => exact hstart
    | cons b others => exact h.last (by simpa using hlast)
  head := h.head

theorem tail {bound : Option JavaType} (h : BoundsEndAt (bound :: others) rest) :
    BoundsEndAt others rest where
  each b hb := h.each b (List.mem_cons_of_mem _ hb)
  last hlast := h.last (by rw [List.getLast?_cons, hlast]; rfl)
  head := h.head

end BoundsEndAt

theorem skipBounds_of_head_ne {depth : Nat} {s : List Char} (h : s.head? ≠ some ':') :
    skipBounds depth s = .ok s := by
  unfold skipBounds
  split
  · simp at h
  · rfl

theorem skipBounds_sound {depth : Nat} {s rest : List Char} (hd : s.length ≤ depth)
    (h : skipBounds depth s = .ok rest) :
    ∃ bounds, BoundsEndAt bounds rest ∧ s = bounds.flatMap spellBound ++ rest := by
  induction depth generalizing s with
  | zero =>
    obtain rfl := List.eq_nil_of_length_eq_zero (Nat.le_zero.mp hd)
    rw [skipBounds_of_head_ne (by simp)] at h
    cases h
    exact ⟨[], .nil (by simp), rfl⟩
  | succ depth ih =>
    by_cases hs : s.head? = some ':'
    · obtain ⟨s, rfl⟩ := List.head?_eq_some_iff.mp hs
      rw [List.length_cons] at hd
      rw [skipBounds] at h
      split_ifs at h with hstart
      · rw [bind_eq_ok] at h
        obtain ⟨⟨text, rest₁⟩, hb, h⟩ := h
        have := length_lt_of_scan hb
        obtain ⟨bound, hw, rfl, -⟩ := scan_eq_ok.mp hb
        obtain ⟨others, hend, rfl⟩ := ih (by omega) h
        rw [startsBound_spell] at hstart
        exact ⟨some bound :: others, hend.cons_some hw hstart, by simp [spellBound]⟩
      · obtain ⟨others, hend, rfl⟩ := ih (by omega) h
        exact ⟨none :: others, hend.cons_none (Bool.eq_false_iff.mpr hstart),
          by simp [spellBound]⟩
    · rw [skipBounds_of_head_ne hs] at h
      cases h
      exact ⟨[], .nil hs, rfl⟩

theorem skipBounds_spell {depth : Nat} {rest : List Char} {bounds : List (Option JavaType)}
    (h : BoundsEndAt bounds rest) (hd : bounds.length ≤ depth) :
    skipBounds depth (bounds.flatMap spellBound ++ rest) = .ok rest := by
  induction bounds generalizing depth with
  | nil => exact skipBounds_of_head_ne h.head
  | cons bound others ih =>
    obtain ⟨depth, rfl⟩ := Nat.exists_eq_add_of_le' (Nat.one_le_of_lt hd)
    rw [List.length_cons] at hd
    have ho := ih h.tail (Nat.le_of_succ_le_succ hd)
    cases bound with
    | none =>
      have hstart : startsBound (others.flatMap spellBound ++ rest) = false := by
        match others with
        | [] => exact h.last rfl
        | none :: _ | some _ :: _ => rfl
      rw [List.flatMap_cons, List.append_assoc, spellBound, List.singleton_append, skipBounds,
        hstart, ho]
      rfl
    | some bound =>
      obtain ⟨hw, hreference⟩ := h.each bound List.mem_cons_self
      rw [List.flatMap_cons, List.append_assoc, spellBound, List.cons_append, skipBounds,
        startsBound_spell, hreference, scan_spell hw]
      exact ho

/-! ## 2. Type parameters -/

theorem startsBound_row {row : List TypeParameter} {rest : List Char}
    (h : ∀ p ∈ row, p.IsWellFormed) :
    startsBound (row.flatMap TypeParameter.spell ++ '>' :: rest) =
      (row.head?.map fun p => startsBound p.name).getD false := by
  cases row with
  | nil => rfl
  | cons p row =>
    have hne := (h p List.mem_cons_self).name.1
    rw [List.flatMap_cons, TypeParameter.spell, List.append_assoc, List.append_assoc,
      startsBound_append hne]
    rfl

theorem skipTypeParameters_close (depth : Nat) (rest : List Char) :
    skipTypeParameters depth ('>' :: rest) = .ok rest := by
  cases depth <;> rfl

theorem skipTypeParameters_of_head_ne {depth : Nat} {s : List Char} (h : s.head? ≠ some '>') :
    skipTypeParameters (depth + 1) s = (do
      let (_, rest) ← identifier [':'] s
      let rest ← skipBounds rest.length rest
      skipTypeParameters depth rest) := by
  rw [skipTypeParameters]
  rintro rest rfl
  exact h rfl

theorem skipTypeParameters_sound {depth : Nat} {s rest : List Char}
    (h : skipTypeParameters depth s = .ok rest) :
    ∃ row, TypeParameter.RowIsWellFormed row ∧
      s = row.flatMap TypeParameter.spell ++ '>' :: rest := by
  induction depth generalizing s with
  | zero =>
    unfold skipTypeParameters at h
    split at h
    · cases h
      exact ⟨[], ⟨by simp, .nil⟩, rfl⟩
    · cases h
    · next hdepth _ => cases hdepth
  | succ depth ih =>
    by_cases hs : s.head? = some '>'
    · obtain ⟨s, rfl⟩ := List.head?_eq_some_iff.mp hs
      rw [skipTypeParameters_close] at h
      cases h
      exact ⟨[], ⟨by simp, .nil⟩, rfl⟩
    · rw [skipTypeParameters_of_head_ne hs, bind_eq_ok] at h
      obtain ⟨⟨name, rest₁⟩, hn, h⟩ := h
      rw [bind_eq_ok] at h
      obtain ⟨rest₂, hb, hr⟩ := h
      obtain ⟨hname, rfl, c, tail, rfl, hc⟩ := identifier_eq_ok.mp hn
      obtain ⟨bounds, hend, hspell⟩ := skipBounds_sound le_rfl hb
      obtain ⟨row, hrow, rfl⟩ := ih hr
      rw [List.mem_singleton] at hc
      refine ⟨⟨name, bounds⟩ :: row,
        ⟨?_, List.isChain_cons.mpr ⟨fun q hq hlast => ?_, hrow.separated⟩⟩, ?_⟩
      · rintro p (_ | ⟨_, hp⟩)
        · refine ⟨hname, fun hhead => hs ?_, ?_, hend.each⟩
          · rw [List.head?_append, hhead]
            rfl
          · rintro rfl
            exact hend.head (by rw [← hc, ← List.head?_cons (l := tail), hspell]; rfl)
        · exact hrow.each p hp
      · have := hend.last hlast
        rw [startsBound_row hrow.each, Option.mem_def.mp hq] at this
        exact startsBound_eq_false_iff.mp this
      · rw [hspell]
        simp [TypeParameter.spell]

/-- The bounds of a type parameter in a row end where the next one starts, or the row does. -/
theorem boundsEndAt_row {p : TypeParameter} {row : List TypeParameter}
    (h : TypeParameter.RowIsWellFormed (p :: row)) (rest : List Char) :
    BoundsEndAt p.bounds (row.flatMap TypeParameter.spell ++ '>' :: rest) where
  each := (h.each p List.mem_cons_self).bounds
  last hlast := by
    rw [startsBound_row fun q hq => h.each q (List.mem_cons_of_mem _ hq)]
    cases hq : row.head? with
    | none => rfl
    | some q =>
      exact startsBound_eq_false_iff.mpr ((List.isChain_cons.mp h.separated).1 q hq hlast)
  head := by
    cases row with
    | nil => simp
    | cons q row =>
      have hq := (h.each q (by simp)).name
      obtain ⟨c, name, hname⟩ := List.exists_cons_of_ne_nil hq.1
      have hc := hq.2 c (by simp [hname])
      simpa [TypeParameter.spell, hname] using hc

/-- The name of a type parameter ends at its first bound. -/
theorem identifier_spell {p : TypeParameter} (h : p.IsWellFormed) (tail : List Char) :
    identifier [':'] (p.name ++ (p.bounds.flatMap spellBound ++ tail)) =
      .ok (p.name, p.bounds.flatMap spellBound ++ tail) := by
  obtain ⟨b, bounds, hbounds⟩ := List.exists_cons_of_ne_nil h.bounds_ne_nil
  refine identifier_eq_ok.mpr ⟨h.name, rfl, ?_⟩
  rw [hbounds]
  cases b with
  | none => exact ⟨':', _, rfl, by simp⟩
  | some b => exact ⟨':', _, rfl, by simp⟩

theorem skipTypeParameters_spell {depth : Nat} {rest : List Char} {row : List TypeParameter}
    (h : TypeParameter.RowIsWellFormed row) (hd : row.length ≤ depth) :
    skipTypeParameters depth (row.flatMap TypeParameter.spell ++ '>' :: rest) = .ok rest := by
  induction row generalizing depth with
  | nil => exact skipTypeParameters_close depth rest
  | cons p row ih =>
    obtain ⟨depth, rfl⟩ := Nat.exists_eq_add_of_le' (Nat.one_le_of_lt hd)
    have hp := h.each p List.mem_cons_self
    have hrow : TypeParameter.RowIsWellFormed row :=
      ⟨fun q hq => h.each q (List.mem_cons_of_mem _ hq), (List.isChain_cons.mp h.separated).2⟩
    have hr := ih hrow (Nat.le_of_succ_le_succ hd)
    have hend := boundsEndAt_row h rest
    generalize htail : row.flatMap TypeParameter.spell ++ '>' :: rest = tail at hr hend
    have hb : skipBounds (p.bounds.flatMap spellBound ++ tail).length
        (p.bounds.flatMap spellBound ++ tail) = .ok tail := by
      refine skipBounds_spell hend ?_
      have := length_le_flatMap fun bound (_ : bound ∈ p.bounds) => spellBound_ne_nil bound
      rw [List.length_append]
      omega
    have hhead : (p.name ++ (p.bounds.flatMap spellBound ++ tail)).head? ≠ some '>' := by
      rw [List.head?_append_of_ne_nil _ hp.name.1]
      exact hp.name_head
    rw [List.flatMap_cons, TypeParameter.spell, List.append_assoc, List.append_assoc, htail,
      skipTypeParameters_of_head_ne hhead, identifier_spell hp]
    simp only [bind, Except.bind, hb, hr]

/-! ## 3. Parameters -/

theorem scanParameters_close (depth : Nat) (rest : List Char) :
    scanParameters depth (')' :: rest) = .ok ([], rest) := by
  cases depth <;> rfl

theorem scanParameters_of_head_ne {depth : Nat} {s : List Char} (h : s.head? ≠ some ')') :
    scanParameters (depth + 1) s = (do
      let (type, rest) ← scan s
      let (types, rest) ← scanParameters depth rest
      .ok (type :: types, rest)) := by
  rw [scanParameters]
  rintro rest rfl
  exact h rfl

theorem scanParameters_sound {depth : Nat} {s rest : List Char} {texts : List String}
    (h : scanParameters depth s = .ok (texts, rest)) :
    ∃ types : List JavaType, (∀ type ∈ types, type.IsWellFormed) ∧
      s = types.flatMap JavaType.spell ++ ')' :: rest ∧
      texts = types.map fun type => String.ofList type.render := by
  induction depth generalizing s texts with
  | zero =>
    unfold scanParameters at h
    split at h
    · cases h
      exact ⟨[], by simp, rfl, rfl⟩
    · cases h
    · next hdepth _ => cases hdepth
  | succ depth ih =>
    by_cases hs : s.head? = some ')'
    · obtain ⟨s, rfl⟩ := List.head?_eq_some_iff.mp hs
      rw [scanParameters_close] at h
      cases h
      exact ⟨[], by simp, rfl, rfl⟩
    · rw [scanParameters_of_head_ne hs, bind_eq_ok] at h
      obtain ⟨⟨text, rest₁⟩, ht, h⟩ := h
      rw [bind_eq_ok] at h
      obtain ⟨⟨texts, rest₂⟩, hts, h⟩ := h
      cases h
      obtain ⟨type, hw, rfl, rfl⟩ := scan_eq_ok.mp ht
      obtain ⟨types, hws, rfl, rfl⟩ := ih hts
      exact ⟨type :: types, List.forall_mem_cons.mpr ⟨hw, hws⟩, by simp, rfl⟩

theorem scanParameters_spell {depth : Nat} {rest : List Char} {types : List JavaType}
    (h : ∀ type ∈ types, type.IsWellFormed) (hd : types.length ≤ depth) :
    scanParameters depth (types.flatMap JavaType.spell ++ ')' :: rest) =
      .ok (types.map fun type => String.ofList type.render, rest) := by
  induction types generalizing depth with
  | nil => exact scanParameters_close depth rest
  | cons type types ih =>
    obtain ⟨depth, rfl⟩ := Nat.exists_eq_add_of_le' (Nat.one_le_of_lt hd)
    obtain ⟨hw, hws⟩ := List.forall_mem_cons.mp h
    have hts := ih hws (Nat.le_of_succ_le_succ hd)
    have hhead : (type.spell ++ (types.flatMap JavaType.spell ++ ')' :: rest)).head? ≠ some ')' := by
      obtain ⟨c, hc, tail, hspell⟩ := exists_spell_eq_cons type
      rw [hspell, List.cons_append, List.head?_cons, Ne, Option.some_inj]
      rintro rfl
      revert hc
      decide
    rw [List.flatMap_cons, List.append_assoc, scanParameters_of_head_ne hhead, scan_spell hw]
    simp only [bind, Except.bind, hts, List.map_cons]

/-! ## 4. Whole methods -/

theorem skipTypeParameterList_of_head_ne {s : List Char} (h : s.head? ≠ some '<') :
    skipTypeParameterList s = .ok s := by
  unfold skipTypeParameterList
  split
  · simp at h
  · rfl

theorem skipTypeParameterList_sound {s rest : List Char}
    (h : skipTypeParameterList s = .ok rest) :
    ∃ row, TypeParameter.RowIsWellFormed row ∧
      ∃ front, MethodType.SpellsTypeParameters row front ∧ s = front ++ rest := by
  by_cases hs : s.head? = some '<'
  · obtain ⟨s, rfl⟩ := List.head?_eq_some_iff.mp hs
    obtain ⟨row, hrow, rfl⟩ := skipTypeParameters_sound h
    exact ⟨row, hrow, _, .given row, by simp⟩
  · rw [skipTypeParameterList_of_head_ne hs] at h
    cases h
    exact ⟨[], ⟨by simp, .nil⟩, [], .absent, rfl⟩

theorem skipTypeParameterList_spell {row : List TypeParameter} {front rest : List Char}
    (h : TypeParameter.RowIsWellFormed row) (hf : MethodType.SpellsTypeParameters row front)
    (hr : rest.head? ≠ some '<') : skipTypeParameterList (front ++ rest) = .ok rest := by
  cases hf with
  | absent => exact skipTypeParameterList_of_head_ne hr
  | given =>
    have hcount : row.length ≤ (row.flatMap TypeParameter.spell).length :=
      length_le_flatMap fun p hp => List.append_ne_nil_of_left_ne_nil (h.each p hp).name.1 _
    rw [List.cons_append, List.cons_append, List.append_assoc, List.singleton_append,
      skipTypeParameterList]
    refine skipTypeParameters_spell h ?_
    rw [List.length_append]
    omega

theorem scanMethod_sound {s rest : List Char} {texts : MethodText}
    (h : scanMethod s = .ok (texts, rest)) :
    ∃ m : MethodType, m.IsWellFormed ∧
      (∃ front, MethodType.SpellsTypeParameters m.typeParameters front ∧
        s = (front ++ '(' :: m.parameters.flatMap JavaType.spell ++ ')' :: m.result.spell)
          ++ rest) ∧
      texts = m.texts := by
  rw [scanMethod, bind_eq_ok] at h
  obtain ⟨rest₁, htypes, h⟩ := h
  rw [bind_eq_ok] at h
  obtain ⟨⟨_, rest₂⟩, hopen, h⟩ := h
  rw [bind_eq_ok] at h
  obtain ⟨⟨parameterTexts, rest₃⟩, hparameters, h⟩ := h
  rw [bind_eq_ok] at h
  obtain ⟨⟨resultText, rest₄⟩, hresult, h⟩ := h
  cases h
  obtain ⟨row, hrow, front, hfront, rfl⟩ := skipTypeParameterList_sound htypes
  obtain rfl := expect_eq_ok.mp hopen
  obtain ⟨parameters, hps, rfl, rfl⟩ := scanParameters_sound hparameters
  obtain ⟨result, hw, rfl, rfl⟩ := scan_eq_ok.mp hresult
  exact ⟨⟨row, parameters, result⟩, ⟨hrow, hps, hw⟩, ⟨front, hfront, by simp⟩, rfl⟩

theorem scanMethod_spell {front rest : List Char} {m : MethodType} (h : m.IsWellFormed)
    (hfront : MethodType.SpellsTypeParameters m.typeParameters front) :
    scanMethod ((front ++ '(' :: m.parameters.flatMap JavaType.spell ++ ')' :: m.result.spell)
      ++ rest) = .ok (m.texts, rest) := by
  have hcount : m.parameters.length ≤ (m.parameters.flatMap JavaType.spell).length :=
    length_le_flatMap fun type _ => List.length_pos_iff.mp (length_spell_pos type)
  have hresult := scan_spell h.result rest
  generalize htail : m.result.spell ++ rest = tail at hresult
  have hparameters : scanParameters (m.parameters.flatMap JavaType.spell ++ ')' :: tail).length
      (m.parameters.flatMap JavaType.spell ++ ')' :: tail) = .ok (m.texts.parameters, tail) := by
    refine scanParameters_spell h.parameters ?_
    rw [List.length_append]
    omega
  generalize hrest : m.parameters.flatMap JavaType.spell ++ ')' :: tail = rest₂ at hparameters
  have htypes : skipTypeParameterList (front ++ '(' :: rest₂) = .ok ('(' :: rest₂) :=
    skipTypeParameterList_spell h.typeParameters hfront (by simp)
  have hs : (front ++ '(' :: m.parameters.flatMap JavaType.spell ++ ')' :: m.result.spell) ++ rest =
      front ++ '(' :: rest₂ := by
    rw [← hrest, ← htail]
    simp
  have hopen : expect '(' ('(' :: rest₂) = .ok ((), rest₂) := expect_eq_ok.mpr rfl
  rw [hs, scanMethod]
  simp only [bind, Except.bind, htypes, hopen, hparameters, hresult]
  rfl

/-- The types of a method are read from the front of a text exactly where a well-formed method
type is spelled. -/
theorem scanMethod_eq_ok {s rest : List Char} {texts : MethodText} :
    scanMethod s = .ok (texts, rest) ↔
      ∃ m : MethodType, m.IsWellFormed ∧
        (∃ front, MethodType.SpellsTypeParameters m.typeParameters front ∧
          s = (front ++ '(' :: m.parameters.flatMap JavaType.spell ++ ')' :: m.result.spell)
            ++ rest) ∧
        texts = m.texts := by
  refine ⟨scanMethod_sound, ?_⟩
  rintro ⟨m, h, ⟨front, hfront, rfl⟩, rfl⟩
  exact scanMethod_spell h hfront

/-! ## 5. Depth -/

theorem skipBounds_succ {depth : Nat} {s : List Char} (h : s.length ≤ depth) :
    skipBounds (depth + 1) s = skipBounds depth s := by
  induction depth generalizing s with
  | zero =>
    obtain rfl := List.eq_nil_of_length_eq_zero (Nat.le_zero.mp h)
    rfl
  | succ depth ih =>
    by_cases hs : s.head? = some ':'
    · obtain ⟨s, rfl⟩ := List.head?_eq_some_iff.mp hs
      rw [List.length_cons] at h
      rw [skipBounds, skipBounds]
      split
      · refine bind_congr_ok rfl fun ⟨bound, rest⟩ hb => ?_
        have := length_lt_of_scan hb
        exact ih (by omega)
      · exact ih (by omega)
    · rw [skipBounds_of_head_ne hs, skipBounds_of_head_ne hs]

theorem skipTypeParameters_succ {depth : Nat} {s : List Char} (h : s.length ≤ depth) :
    skipTypeParameters (depth + 1) s = skipTypeParameters depth s := by
  induction depth generalizing s with
  | zero =>
    obtain rfl := List.eq_nil_of_length_eq_zero (Nat.le_zero.mp h)
    rfl
  | succ depth ih =>
    by_cases hs : s.head? = some '>'
    · obtain ⟨s, rfl⟩ := List.head?_eq_some_iff.mp hs
      rw [skipTypeParameters_close, skipTypeParameters_close]
    · rw [skipTypeParameters_of_head_ne hs, skipTypeParameters_of_head_ne hs]
      refine bind_congr_ok rfl fun ⟨name, rest₁⟩ hn => ?_
      refine bind_congr_ok rfl fun rest₂ hb => ?_
      obtain ⟨hname, rfl, -⟩ := identifier_eq_ok.mp hn
      obtain ⟨bounds, -, rfl⟩ := skipBounds_sound le_rfl hb
      have := List.length_pos_iff.mpr hname.1
      rw [List.length_append, List.length_append] at h
      exact ih (by omega)

theorem scanParameters_succ {depth : Nat} {s : List Char} (h : s.length ≤ depth) :
    scanParameters (depth + 1) s = scanParameters depth s := by
  induction depth generalizing s with
  | zero =>
    obtain rfl := List.eq_nil_of_length_eq_zero (Nat.le_zero.mp h)
    rfl
  | succ depth ih =>
    by_cases hs : s.head? = some ')'
    · obtain ⟨s, rfl⟩ := List.head?_eq_some_iff.mp hs
      rw [scanParameters_close, scanParameters_close]
    · rw [scanParameters_of_head_ne hs, scanParameters_of_head_ne hs]
      refine bind_congr_ok rfl fun ⟨type, rest⟩ ht => ?_
      have := length_lt_of_scan ht
      exact bind_congr_ok (ih (by omega)) fun _ _ => rfl

/-- On a text each parser comes to the same end at every depth beyond the one it is
given, so none of them is stopped by its depth. -/
structure DepthSuffices (s : List Char) : Prop where
  type : ∀ depth, 2 * s.length + 1 ≤ depth → scanType depth s = scan s
  bounds : ∀ depth, s.length ≤ depth → skipBounds depth s = skipBounds s.length s
  typeParameters : ∀ depth, s.length ≤ depth →
    skipTypeParameters depth s = skipTypeParameters s.length s
  parameters : ∀ depth, s.length ≤ depth → scanParameters depth s = scanParameters s.length s

theorem depthSuffices (s : List Char) : DepthSuffices s where
  type _ := scanType_of_le
  bounds depth h := by
    induction depth, h using Nat.le_induction with
    | base => rfl
    | succ depth h ih => rw [skipBounds_succ h, ih]
  typeParameters depth h := by
    induction depth, h using Nat.le_induction with
    | base => rfl
    | succ depth h ih => rw [skipTypeParameters_succ h, ih]
  parameters depth h := by
    induction depth, h using Nat.le_induction with
    | base => rfl
    | succ depth h ih => rw [scanParameters_succ h, ih]

/-! ## 6. Whole texts -/

theorem finish_eq_ok {α : Type} {found : Except Flaw (α × List Char)} {a : α} :
    finish found = .ok a ↔ ∃ tail, found = .ok (a, tail) ∧ (tail = [] ∨ tail.head? = some '^') := by
  match found with
  | .error flaw => simp [finish]
  | .ok (b, []) => simp [finish]
  | .ok (b, c :: tail) =>
    by_cases hc : c = '^'
    · simp [finish, hc]
    · simp [finish, hc]

theorem rendered_eq_ok {text written : String} :
    rendered text = .ok written ↔
      ∃ type : JavaType, type.SpelledBy text ∧ written = String.ofList type.render := by
  rw [rendered, mapError_eq_ok, finish_eq_ok]
  constructor
  · rintro ⟨tail, hscan, htail⟩
    obtain ⟨type, hw, htext, rfl⟩ := scan_eq_ok.mp hscan
    exact ⟨type, ⟨hw, tail, htext, htail⟩, rfl⟩
  · rintro ⟨type, ⟨hw, tail, htext, htail⟩, rfl⟩
    exact ⟨tail, scan_eq_ok.mpr ⟨type, hw, htext, rfl⟩, htail⟩

theorem renderedMethod_eq_ok {text : String} {isVarargs : Bool} {written : MethodText} :
    renderedMethod text isVarargs = .ok written ↔
      ∃ m : MethodType, m.SpelledBy text ∧ written = m.texts.withVarargs isVarargs := by
  rw [renderedMethod, map_eq_ok]
  simp only [mapError_eq_ok, finish_eq_ok]
  constructor
  · rintro ⟨texts, ⟨tail, hscan, htail⟩, rfl⟩
    obtain ⟨m, hw, ⟨front, hfront, htext⟩, rfl⟩ := scanMethod_eq_ok.mp hscan
    exact ⟨m, ⟨hw, front, hfront, tail, htext, htail⟩, rfl⟩
  · rintro ⟨m, ⟨hw, front, hfront, tail, htext, htail⟩, rfl⟩
    exact ⟨m.texts, ⟨tail, scanMethod_eq_ok.mpr ⟨m, hw, ⟨front, hfront, htext⟩, rfl⟩, htail⟩, rfl⟩

theorem writesLast_iff {type written : List Char} :
    WritesLast type written ↔ written = (withEllipsis (String.ofList type)).toList := by
  rw [withEllipsis, String.toList_ofList]
  constructor
  · rintro (⟨element⟩ | h)
    · simp
    · rw [if_neg (by rwa [List.isSuffixOf_iff_suffix]), String.toList_ofList]
  · rintro rfl
    split_ifs with h
    · obtain ⟨element, rfl⟩ := List.isSuffixOf_iff_suffix.mp h
      simpa using WritesLast.dots element
    · rw [String.toList_ofList]
      exact .same (by rwa [List.isSuffixOf_iff_suffix] at h)

theorem changeLast_concat {α : Type} (f : α → α) (items : List α) (last : α) :
    changeLast f (items ++ [last]) = items ++ [f last] := by
  induction items with
  | nil => rfl
  | cons item items ih =>
    rw [List.cons_append, changeLast, ih, List.cons_append]
    simp

theorem writesParameters_iff {isVarargs : Bool} {m : MethodType} {words : List (List Char)} :
    WritesParameters isVarargs m.parameters words ↔
      words = (m.texts.withVarargs isVarargs).parameters.map String.toList := by
  have hmap : ∀ types : List JavaType,
      (types.map fun type => String.ofList type.render).map String.toList =
        types.map JavaType.render := by simp
  cases isVarargs with
  | false =>
    rw [MethodText.withVarargs, if_neg Bool.false_ne_true, MethodType.texts, hmap]
    constructor
    · rintro ⟨⟩
      rfl
    · rintro rfl
      exact .fixed _
  | true =>
    rw [MethodText.withVarargs, if_pos rfl, MethodType.texts]
    generalize m.parameters = parameters
    constructor
    · rintro (_ | _ | ⟨types, hlast⟩)
      · rfl
      · rw [List.map_append, List.map_singleton, changeLast_concat, List.map_append, hmap,
          List.map_singleton, writesLast_iff.mp hlast]
    · rintro rfl
      rcases List.eq_nil_or_concat parameters with rfl | ⟨types, last, rfl⟩
      · exact .none
      · rw [List.concat_eq_append, List.map_append, List.map_singleton, changeLast_concat,
          List.map_append, hmap, List.map_singleton]
        exact .varargs types (writesLast_iff.mpr rfl)

/-- The texts of a method are those of its types. -/
theorem writtenAs_iff {m : MethodType} {isVarargs : Bool} {types : MethodText} :
    m.WrittenAs isVarargs types ↔ types = m.texts.withVarargs isVarargs := by
  have hresult : (m.texts.withVarargs isVarargs).result = String.ofList m.result.render := rfl
  constructor
  · obtain ⟨parameters, result⟩ := types
    rintro ⟨hparameters, htext⟩
    obtain rfl : parameters = _ := List.map_injective_iff.mpr (fun _ _ => String.toList_injective)
      (writesParameters_iff.mp hparameters)
    obtain rfl : result = (m.texts.withVarargs isVarargs).result := by
      rwa [hresult, ← String.toList_inj, String.toList_ofList]
    rfl
  · rintro rfl
    exact ⟨writesParameters_iff.mpr rfl, by rw [hresult, String.toList_ofList]⟩

/-- Every fault of a text is a flaw that its parser found in it. -/
theorem exists_flaw {α : Type} {text : String} (found : Except Flaw α)
    (h : ∀ a, found.mapError (Flaw.malformed text) ≠ .ok a) :
    ∃ flaw : Flaw, found.mapError (Flaw.malformed text) = .error (flaw.malformed text) := by
  cases found with
  | error flaw => exact ⟨flaw, rfl⟩
  | ok a => exact absurd rfl (h a)

/-- A text has a written form exactly if it spells a type, alone or before exceptions, and
the form is that of the type; any other text is reported with a flaw. The same holds of
methods, and no parser is ever stopped by its depth. -/
theorem rendered_iff_spelled (text : String) :
    (∀ written, rendered text = .ok written ↔
      ∃ type : JavaType, type.SpelledBy text ∧ written = String.ofList type.render) ∧
    ((¬ ∃ type : JavaType, type.SpelledBy text) →
      ∃ flaw : Flaw, rendered text = .error (flaw.malformed text)) ∧
    (∀ isVarargs written, renderedMethod text isVarargs = .ok written ↔
      ∃ m : MethodType, m.SpelledBy text ∧ m.WrittenAs isVarargs written) ∧
    ((¬ ∃ m : MethodType, m.SpelledBy text) →
      ∃ flaw : Flaw, ∀ isVarargs, renderedMethod text isVarargs = .error (flaw.malformed text)) ∧
    ∀ s, DepthSuffices s := by
  refine ⟨fun written => rendered_eq_ok, fun hnone => ?_, fun isVarargs written => ?_,
    fun hnone => ?_, depthSuffices⟩
  · exact exists_flaw (finish (scan text.toList)) fun written hwritten =>
      hnone ((rendered_eq_ok.mp hwritten).imp fun _ => And.left)
  · simp only [renderedMethod_eq_ok, writtenAs_iff]
  · have hfails : ∀ texts,
        (finish (scanMethod text.toList)).mapError (Flaw.malformed text) ≠ .ok texts := by
      intro texts htexts
      have hread : renderedMethod text false = .ok texts := map_eq_ok.mpr ⟨texts, htexts, rfl⟩
      exact hnone ((renderedMethod_eq_ok.mp hread).imp fun _ => And.left)
    obtain ⟨flaw, hflaw⟩ := exists_flaw _ hfails
    exact ⟨flaw, fun isVarargs => congrArg (Except.map _) hflaw⟩

end Descriptor

end ApiSurface
