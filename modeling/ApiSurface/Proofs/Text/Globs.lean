/-
ApiSurface.Proofs.Text.Globs — what wildcard patterns stand for.

The parts of a pattern are read one after another: a text that fits two patterns in a row
is cut into a text that fits the first and a text that fits the second
(`matchesChars_append`). Without runs every part stands for one character
(`matchesChars_of_no_run`).

A pattern is literal if every part stands for one given character, void if some part stands
for no character at all, and open-ended if nothing behind one of its runs tells characters
apart. An open-ended pattern stands for every continuation of what it stands for. Any other
pattern that is neither literal nor void stands for some text, and not for one of the
continuations of that text (`exists_not_matches_below`).
-/
import ApiSurface.Proofs.Lists
import ApiSurface.Text.Glob
import Mathlib.Data.List.Induction

namespace ApiSurface.Glob

variable {g g' : Glob} {s t : List Char} {c : Char}

/-! ## 1. Patterns in a row -/

theorem matchesChars_anyRun_iff :
    matchesChars (.anyRun :: g) s = true ↔ ∃ a b, s = a ++ b ∧ matchesChars g b = true := by
  induction s with
  | nil =>
    rw [matchesChars_anyRun, Bool.or_false]
    constructor
    · exact fun h => ⟨[], [], rfl, h⟩
    · rintro ⟨a, b, hab, h⟩
      rwa [(List.append_eq_nil_iff.mp hab.symm).2] at h
  | cons c s ih =>
    rw [matchesChars_anyRun, Bool.or_eq_true, ih]
    constructor
    · rintro (h | ⟨a, b, rfl, h⟩)
      · exact ⟨[], c :: s, rfl, h⟩
      · exact ⟨c :: a, b, rfl, h⟩
    · rintro ⟨a, b, hab, h⟩
      rcases List.cons_eq_append_iff.mp hab with ⟨rfl, rfl⟩ | ⟨a, rfl, hs⟩
      · exact .inl h
      · exact .inr ⟨a, b, hs, h⟩

theorem matchesChars_cons_iff {part : GlobPart} (hpart : part ≠ .anyRun) :
    matchesChars (part :: g) s = true ↔
      ∃ c rest, s = c :: rest ∧ standsFor c part = true ∧ matchesChars g rest = true := by
  rw [matchesChars_cons hpart]
  cases s with
  | nil => simp
  | cons c rest => simp

theorem matchesChars_cons_cons {part : GlobPart} (hc : standsFor c part = true)
    (hs : matchesChars g s = true) : matchesChars (part :: g) (c :: s) = true := by
  have hrun : part ≠ .anyRun := by
    rintro rfl
    cases hc
  exact (matchesChars_cons_iff hrun).mpr ⟨c, s, rfl, hc, hs⟩

/-- What two patterns in a row stand for. -/
theorem matchesChars_append :
    matchesChars (g ++ g') s = true ↔
      ∃ a b, s = a ++ b ∧ matchesChars g a = true ∧ matchesChars g' b = true := by
  induction g generalizing s with
  | nil => simp
  | cons part g ih =>
    rw [List.cons_append]
    by_cases hpart : part = .anyRun
    · subst hpart
      simp only [matchesChars_anyRun_iff, ih]
      constructor
      · rintro ⟨a, _, rfl, b, b', rfl, hb, hb'⟩
        exact ⟨a ++ b, b', (List.append_assoc a b b').symm, ⟨a, b, rfl, hb⟩, hb'⟩
      · rintro ⟨_, b', rfl, ⟨a, b, rfl, hb⟩, hb'⟩
        exact ⟨a, b ++ b', List.append_assoc a b b', b, b', rfl, hb, hb'⟩
    · simp only [matchesChars_cons_iff hpart, ih]
      constructor
      · rintro ⟨c, _, rfl, hc, a, b, rfl, ha, hb⟩
        exact ⟨c :: a, b, rfl, ⟨c, a, rfl, hc, ha⟩, hb⟩
      · rintro ⟨_, b, rfl, ⟨c, a, rfl, hc, ha⟩, hb⟩
        exact ⟨c, a ++ b, rfl, hc, a, b, rfl, ha, hb⟩

/-- Without runs every part stands for one character. -/
theorem matchesChars_of_no_run (hg : .anyRun ∉ g) :
    matchesChars g s = true ↔ List.Forall₂ (fun part c => standsFor c part = true) g s := by
  induction g generalizing s with
  | nil => simp
  | cons part g ih =>
    rw [List.mem_cons, not_or] at hg
    rw [matchesChars_cons_iff (Ne.symm hg.1), List.forall₂_cons_left_iff]
    simp only [ih hg.2]
    constructor
    · rintro ⟨c, rest, rfl, hc, hrest⟩
      exact ⟨c, rest, hc, hrest, rfl⟩
    · rintro ⟨c, rest, hc, hrest, rfl⟩
      exact ⟨c, rest, rfl, hc, hrest⟩

/-! ## 2. Kinds of patterns -/

/-- Every part stands for one given character. -/
def IsLiteral (g : Glob) : Prop := ∀ part ∈ g, ∃ c, part = .exactly c

/-- Some part stands for no character at all. -/
def IsVoid (g : Glob) : Prop := ∃ part ∈ g, part ≠ .anyRun ∧ ∀ c, standsFor c part = false

/-- A part does not tell characters apart. -/
def TakesAll (part : GlobPart) : Prop := part = .anyRun ∨ ∀ c, standsFor c part = true

/-- Nothing behind one of the runs tells characters apart. -/
def IsOpenEnded (g : Glob) : Prop :=
  ∃ before behind, g = before ++ .anyRun :: behind ∧ ∀ part ∈ behind, TakesAll part

/-- A void pattern stands for nothing. -/
theorem IsVoid.matchesChars (h : IsVoid g) : matchesChars g s = false := by
  obtain ⟨part, hpart, hrun, hnone⟩ := h
  obtain ⟨before, behind, rfl⟩ := List.append_of_mem hpart
  rw [Bool.eq_false_iff]
  intro hs
  obtain ⟨-, b, -, -, hb⟩ := matchesChars_append.mp hs
  obtain ⟨c, -, -, hc, -⟩ := (matchesChars_cons_iff hrun).mp hb
  rw [hnone c] at hc
  cases hc

/-- Where no part tells characters apart, a text fits by its length. -/
theorem matchesChars_of_length_eq (hg : ∀ part ∈ g, TakesAll part) (hlength : t.length = s.length)
    (hs : matchesChars g s = true) : matchesChars g t = true := by
  induction g generalizing s t with
  | nil =>
    rw [matchesChars_nil, List.isEmpty_iff] at hs ⊢
    rwa [hs, List.length_nil, List.length_eq_zero_iff] at hlength
  | cons part g ih =>
    obtain ⟨hpart, hrest⟩ := List.forall_mem_cons.mp hg
    by_cases hrun : part = .anyRun
    · subst hrun
      obtain ⟨a, b, rfl, hb⟩ := matchesChars_anyRun_iff.mp hs
      rw [List.length_append] at hlength
      exact matchesChars_anyRun_iff.mpr ⟨t.take a.length, t.drop a.length,
        (List.take_append_drop _ _).symm, ih hrest (by rw [List.length_drop]; omega) hb⟩
    · obtain ⟨c, s, rfl, -, hs⟩ := (matchesChars_cons_iff hrun).mp hs
      obtain ⟨c', t, rfl⟩ := List.exists_cons_of_length_eq_add_one hlength
      exact matchesChars_cons_cons (hpart.resolve_left hrun c') (ih hrest (by simpa using hlength) hs)

/-- An open-ended pattern stands for every continuation of what it stands for. -/
theorem IsOpenEnded.matchesChars_append (h : IsOpenEnded g) (hs : matchesChars g s = true)
    (t : List Char) : matchesChars g (s ++ t) = true := by
  obtain ⟨before, behind, rfl, hbehind⟩ := h
  obtain ⟨a, b, rfl, ha, hb⟩ := Glob.matchesChars_append.mp hs
  obtain ⟨u, v, rfl, hv⟩ := matchesChars_anyRun_iff.mp hb
  -- The run takes as much more as is appended, and the parts behind it take the new end.
  have hrun : matchesChars (.anyRun :: behind) (u ++ (v ++ t)) = true :=
    matchesChars_anyRun_iff.mpr ⟨u ++ (v ++ t).take t.length, (v ++ t).drop t.length,
      by rw [List.append_assoc, List.take_append_drop],
      matchesChars_of_length_eq hbehind (by simp) hv⟩
  exact Glob.matchesChars_append.mpr ⟨a, u ++ (v ++ t), by simp, ha, hrun⟩

/-! ## 3. Patterns as they are written -/

theorem isSet_setOf (inside : List Char) :
    setOf inside = .anyOne ∨ ∃ negated ranges, setOf inside = .oneOf negated ranges := by
  simp only [setOf]
  split
  · exact .inl rfl
  · exact .inr ⟨_, _, rfl⟩
  · exact .inr ⟨_, _, rfl⟩

/-- Every part is spelled by one character at least. -/
theorem length_parts_le (s : List Char) : (parts s).length ≤ s.length := by
  fun_induction parts s with
  | case1 => exact Nat.le_refl 0
  | case2 rest ih => exact Nat.succ_le_succ ih
  | case3 rest _ ih => exact Nat.succ_le_succ ih
  | case4 rest inside rest' hset hlt _ _ ih =>
    simp only [List.length_cons]
    omega
  | case5 rest _ _ _ ih => exact Nat.succ_le_succ ih
  | case6 c rest _ _ _ ih => exact Nat.succ_le_succ ih

theorem isLiteral_cons {part : GlobPart} :
    IsLiteral (part :: g) ↔ (∃ c, part = .exactly c) ∧ IsLiteral g := List.forall_mem_cons

/-- A literal pattern is spelled by the characters that its parts stand for. -/
theorem parts_of_isLiteral (h : IsLiteral (parts s)) : parts s = s.map .exactly := by
  fun_induction parts s with
  | case1 => rfl
  | case2 rest ih => simp [isLiteral_cons] at h
  | case3 rest _ ih => simp [isLiteral_cons] at h
  | case4 rest inside rest' _ _ _ _ ih =>
    obtain ⟨c, hc⟩ := (isLiteral_cons.mp h).1
    rcases isSet_setOf inside with hpart | ⟨negated, ranges, hpart⟩ <;> simp [hpart] at hc
  | case5 rest _ _ _ ih => rw [ih (isLiteral_cons.mp h).2, List.map_cons]
  | case6 c rest _ _ _ ih => rw [ih (isLiteral_cons.mp h).2, List.map_cons]

/-- A literal pattern stands for nothing but its own text. -/
theorem eq_of_isLiteral (h : IsLiteral (parts s)) (ht : matchesChars (parts s) t = true) : t = s := by
  rw [parts_of_isLiteral h, matchesChars_of_no_run (by simp), List.forall₂_map_left_iff] at ht
  have heq : List.Forall₂ Eq s t := ht.imp fun c d hcd => (beq_iff_eq.mp hcd).symm
  exact (List.forall₂_eq_eq_eq ▸ heq : s = t).symm

theorem isVoid_cons {part : GlobPart} :
    IsVoid (part :: g) ↔ (part ≠ .anyRun ∧ ∀ c, standsFor c part = false) ∨ IsVoid g := by
  simp [IsVoid]

/-- A pattern that is not void stands for a text no longer than itself. Unless it is literal,
this is another text than its own. -/
theorem exists_matches_of_not_isVoid (h : ¬ IsVoid (parts s)) :
    ∃ t, matchesChars (parts s) t = true ∧ t.length ≤ s.length ∧ (¬ IsLiteral (parts s) → t ≠ s) := by
  fun_induction parts s with
  | case1 => exact ⟨[], rfl, Nat.le_refl 0, fun hl => absurd nofun hl⟩
  | case2 rest ih =>
    obtain ⟨t, ht, hlength, -⟩ := ih fun hv => h (isVoid_cons.mpr (.inr hv))
    -- The run takes nothing, so the text is shorter than the pattern.
    refine ⟨t, matchesChars_anyRun_iff.mpr ⟨[], t, rfl, ht⟩, Nat.le_succ_of_le hlength, fun _ heq => ?_⟩
    rw [heq, List.length_cons] at hlength
    omega
  | case3 rest _ ih =>
    obtain ⟨t, ht, hlength, -⟩ := ih fun hv => h (isVoid_cons.mpr (.inr hv))
    exact ⟨'a' :: t, matchesChars_cons_cons rfl ht, Nat.succ_le_succ hlength,
      fun _ heq => absurd (List.cons.inj heq).1 (by decide)⟩
  | case4 rest inside rest' hset hlt _ _ ih =>
    rw [isVoid_cons, not_or] at h
    obtain ⟨t, ht, hlength, -⟩ := ih h.2
    have hrun : setOf inside ≠ .anyRun := by
      rcases isSet_setOf inside with hpart | ⟨negated, ranges, hpart⟩ <;> simp [hpart]
    obtain ⟨c, hc⟩ := not_forall.mp fun hnone => h.1 ⟨hrun, hnone⟩
    refine ⟨c :: t, matchesChars_cons_cons (by simpa using hc) ht, ?_, ?_⟩
    · rw [List.length_cons, List.length_cons]
      omega
    · -- The set is spelled by two brackets at least.
      intro _ heq
      rw [← (List.cons.inj heq).2] at hlt
      omega
  | case5 rest _ _ _ ih =>
    obtain ⟨t, ht, hlength, hne⟩ := ih fun hv => h (isVoid_cons.mpr (.inr hv))
    refine ⟨'[' :: t, matchesChars_cons_cons (beq_self_eq_true '[') ht,
      Nat.succ_le_succ hlength, fun hl heq => ?_⟩
    exact hne (fun hrest => hl (isLiteral_cons.mpr ⟨⟨_, rfl⟩, hrest⟩)) (List.cons.inj heq).2
  | case6 c rest _ _ _ ih =>
    obtain ⟨t, ht, hlength, hne⟩ := ih fun hv => h (isVoid_cons.mpr (.inr hv))
    refine ⟨c :: t, matchesChars_cons_cons (beq_self_eq_true c) ht,
      Nat.succ_le_succ hlength, fun hl heq => ?_⟩
    exact hne (fun hrest => hl (isLiteral_cons.mpr ⟨⟨_, rfl⟩, hrest⟩)) (List.cons.inj heq).2

/-! ## 4. Continuations -/

/-- A pattern has no run, or there is a last one. -/
theorem last_run (g : Glob) :
    .anyRun ∉ g ∨ ∃ before behind, g = before ++ .anyRun :: behind ∧ .anyRun ∉ behind := by
  by_cases h : GlobPart.anyRun ∈ g
  · obtain ⟨back, front, heq, hback⟩ := List.eq_append_cons_of_mem (List.mem_reverse.mpr h)
    refine .inr ⟨front.reverse, back.reverse, ?_, by simpa using hback⟩
    rw [List.reverse_eq_iff.mp heq]
    simp
  · exact .inl h

/-- Behind a last run that is followed by a part that refuses `c`, no text ends with many `c`. -/
theorem not_matches_replicate (hbehind : .anyRun ∉ g) {part : GlobPart} (hpart : part ∈ g)
    (hc : standsFor c part = false) {k : Nat} (hk : g.length ≤ k) (g' : Glob) (s : List Char) :
    matchesChars (g' ++ .anyRun :: g) (s ++ List.replicate k c) = false := by
  rw [Bool.eq_false_iff]
  intro h
  obtain ⟨a, b, hab, -, hb⟩ := matchesChars_append.mp h
  obtain ⟨u, v, rfl, hv⟩ := matchesChars_anyRun_iff.mp hb
  have hall := (matchesChars_of_no_run hbehind).mp hv
  -- What stands at the end and is as long as `g` consists of `c` alone.
  have hend : v = List.replicate v.length c := by
    have hsuffix : v <:+ s ++ List.replicate k c := ⟨a ++ u, by rw [hab, List.append_assoc]⟩
    have hle : v.length ≤ k := hall.length_eq ▸ hk
    have hv : v <:+ List.replicate k c :=
      List.suffix_of_suffix_length_le hsuffix (List.suffix_append _ _) (by simpa using hle)
    exact List.eq_replicate_iff.mpr ⟨rfl, fun d hd => List.eq_of_mem_replicate (hv.subset hd)⟩
  obtain ⟨d, hd, hstands⟩ := exists_of_mem_left hall hpart
  rw [hend] at hd
  rw [List.eq_of_mem_replicate hd, hc] at hstands
  cases hstands

/-- A pattern that is neither literal, nor void, nor open-ended stands for some text that is
shorter than the pattern or another one of its length, but not for all continuations of it. -/
theorem exists_not_matches_below (hl : ¬ IsLiteral (parts s)) (hv : ¬ IsVoid (parts s))
    (ho : ¬ IsOpenEnded (parts s)) :
    ∃ t c, matchesChars (parts s) t = true ∧ t.length ≤ s.length ∧ t ≠ s ∧
      matchesChars (parts s) (t ++ '.' :: List.replicate s.length c) = false := by
  obtain ⟨t, ht, hlength, hne⟩ := exists_matches_of_not_isVoid hv
  rcases last_run (parts s) with hrun | ⟨before, behind, heq, hbehind⟩
  · -- Without runs all texts that fit have one length.
    refine ⟨t, 'a', ht, hlength, hne hl, Bool.eq_false_iff.mpr fun hlong => ?_⟩
    have hone := ((matchesChars_of_no_run hrun).mp ht).length_eq
    have htwo := ((matchesChars_of_no_run hrun).mp hlong).length_eq
    rw [List.length_append, List.length_cons] at htwo
    omega
  · obtain ⟨part, hpart, c, hc⟩ : ∃ part ∈ behind, ∃ c, standsFor c part = false := by
      by_contra hall
      push Not at hall
      exact ho ⟨before, behind, heq, fun part hpart =>
        .inr fun c => Bool.not_eq_false _ ▸ hall part hpart c⟩
    have hk : behind.length ≤ s.length := by
      have := length_parts_le s
      rw [heq, List.length_append, List.length_cons] at this
      omega
    refine ⟨t, c, ht, hlength, hne hl, ?_⟩
    have hend := not_matches_replicate hbehind hpart hc hk before (t ++ ['.'])
    rwa [List.append_assoc, List.singleton_append, ← heq] at hend

end ApiSurface.Glob
