/-
ApiSurface.Proofs.Universe.SubPackages — package patterns and the packages below.

A package pattern is meant to leave out the packages below those that it leaves out. The
exclusion looks for the pattern itself in front of a package, so a pattern that is a literal
name does so. A pattern with wildcards is matched with the whole package, and then it covers
what is below only as far as it stands for that as well.

`ReachesBelow` names the patterns for which this is enough: literal ones, void ones, which
leave out nothing, and open-ended ones. The main statement is that these and no others cover
the sub-packages of all that they cover (`reachesBelow_iff`).
-/
import ApiSurface.Proofs.Text.Globs
import ApiSurface.Universe.Exclusion

namespace ApiSurface

/-! ## 1. Packages -/

/-- Every package has classes. -/
theorem Names.qualifier_member (package : String) :
    Names.qualifier (String.ofList (package.toList ++ ['.', 'A'])) = package := by
  simp [Names.qualifier]

/-- Where a text is trimmed it does not end with what is trimmed off. -/
theorem Text.getLast?_trimBoth {α : Type} {p : α → Bool} {l : List α} {a : α}
    (h : (Text.trimBoth p l).getLast? = some a) : p a = false := by
  have hhead := List.head?_dropWhile_not p (l.dropWhile p).reverse
  rw [Text.trimBoth, List.getLast?_reverse] at h
  rw [h] at hhead
  exact hhead

namespace Exclusion

variable {pattern package q r : String}

theorem isBelow_iff : isBelow package q = true ↔ ∃ rest, package.toList = q.toList ++ '.' :: rest := by
  rw [isBelow, List.isPrefixOf_iff_prefix]
  constructor
  · rintro ⟨rest, h⟩
    exact ⟨rest, by rw [← h, List.append_assoc, List.singleton_append]⟩
  · rintro ⟨rest, h⟩
    exact ⟨rest, by rw [h, List.append_assoc, List.singleton_append]⟩

theorem isBelow_trans (hr : isBelow r q = true) (hq : isBelow q package = true) :
    isBelow r package = true := by
  obtain ⟨rest, hr⟩ := isBelow_iff.mp hr
  obtain ⟨rest', hq⟩ := isBelow_iff.mp hq
  exact isBelow_iff.mpr ⟨rest' ++ '.' :: rest, by rw [hr, hq]; simp⟩

/-! ## 2. Patterns -/

theorem standsFor_iff : standsFor pattern package = true ↔
    package = pattern ∨ (Glob.ofString pattern).matchesChars package.toList = true := by
  rw [standsFor, Bool.or_eq_true, beq_iff_eq]
  rfl

/-- A pattern, as it is written, that covers what is below all that it covers. -/
def ReachesBelow (written : String) : Prop :=
  let glob := Glob.ofString (withoutOuterDots written)
  glob.IsLiteral ∨ glob.IsVoid ∨ glob.IsOpenEnded

/-- What a pattern that reaches below covers, it covers together with what is below. -/
theorem coversPackage_below {written : String} (h : ReachesBelow written)
    (hr : isBelow r q = true) (hq : coversPackage (withoutOuterDots written) q = true) :
    coversPackage (withoutOuterDots written) r = true := by
  rw [coversPackage, Bool.or_eq_true, standsFor_iff] at hq ⊢
  obtain ⟨rest, hrest⟩ := isBelow_iff.mp hr
  have hliteral : q = withoutOuterDots written → isBelow r (withoutOuterDots written) = true :=
    fun heq => heq ▸ hr
  rcases hq with (hq | hq) | hq
  · exact .inr (hliteral hq)
  · rcases h with hl | hv | ho
    · exact .inr (hliteral (String.toList_inj.mp (Glob.eq_of_isLiteral hl hq)))
    · rw [hv.matchesChars] at hq
      cases hq
    · exact .inl (.inr (hrest ▸ ho.matchesChars_append hq _))
  · exact .inr (isBelow_trans hr hq)

/-- Behind a text that is shorter than a pattern, or another one of its length, nothing is
below the pattern where one character is repeated: the pattern does not end with a dot. -/
theorem not_isBelow_replicate {t : List Char} {c : Char} {k : Nat}
    (hdot : pattern.toList.getLast? ≠ some '.') (hlength : t.length ≤ pattern.toList.length)
    (hne : t ≠ pattern.toList) :
    isBelow (String.ofList (t ++ '.' :: List.replicate k c)) pattern = false := by
  rw [Bool.eq_false_iff]
  intro h
  obtain ⟨rest, h⟩ := isBelow_iff.mp h
  rw [String.toList_ofList] at h
  rcases List.append_eq_append_iff.mp h with ⟨more, hmore, hrest⟩ | ⟨more, hmore, -⟩
  · rcases List.cons_eq_append_iff.mp hrest with ⟨rfl, -⟩ | ⟨dots, rfl, hdots⟩
    · exact hne (by rw [hmore, List.append_nil])
    · -- The dot behind the pattern is one of the repeated characters, so they are dots.
      have hmem : ∀ d ∈ dots ++ '.' :: rest, d = c := fun d hd => List.eq_of_mem_replicate (hdots ▸ hd)
      obtain rfl : '.' = c := hmem '.' (by simp)
      refine hdot ?_
      rw [hmore, List.getLast?_append_of_ne_nil _ (List.cons_ne_nil _ _),
        List.getLast?_eq_getLast_of_ne_nil (List.cons_ne_nil _ _), Option.some_inj]
      rcases List.mem_cons.mp (List.getLast_mem (List.cons_ne_nil '.' dots)) with heq | hd
      · exact heq
      · exact hmem _ (List.mem_append_left _ hd)
  · rw [hmore, List.length_append] at hlength
    obtain rfl := List.length_eq_zero_iff.mp (by omega : more.length = 0)
    exact hne (by rw [hmore, List.append_nil])

/-- A pattern that does not reach below covers a package, and not one of those below. -/
theorem exists_not_coversPackage_below {written : String} (h : ¬ ReachesBelow written) :
    ∃ q r, isBelow r q = true ∧ coversPackage (withoutOuterDots written) q = true ∧
      coversPackage (withoutOuterDots written) r = false := by
  have hdot : (withoutOuterDots written).toList.getLast? ≠ some '.' := by
    rw [withoutOuterDots, String.toList_ofList]
    intro hlast
    cases Text.getLast?_trimBoth hlast
  rw [ReachesBelow, not_or, not_or] at h
  obtain ⟨t, c, ht, hlength, hne, hnot⟩ := Glob.exists_not_matches_below h.1 h.2.1 h.2.2
  generalize withoutOuterDots written = pattern at *
  refine ⟨String.ofList t, String.ofList (t ++ '.' :: List.replicate pattern.toList.length c),
    isBelow_iff.mpr ⟨_, by rw [String.toList_ofList, String.toList_ofList]⟩, ?_, ?_⟩
  · rw [coversPackage, Bool.or_eq_true, standsFor_iff, String.toList_ofList]
    exact .inl (.inr ht)
  · rw [coversPackage, not_isBelow_replicate hdot hlength hne, Bool.or_false, Bool.eq_false_iff, ne_eq,
      standsFor_iff, String.toList_ofList, Glob.ofString, hnot, or_iff_left (by decide)]
    -- The longer package is longer than the pattern.
    intro heq
    have := congrArg (List.length ∘ String.toList) heq
    simp at this
    omega

/-! ## 3. Classes -/

theorem covers_pattern {written name : String} (hwritten : written ≠ "") :
    (ofPatterns [written] []).covers name =
      coversPackage (withoutOuterDots written) (Names.qualifier name) := by
  simp [covers, ofPatterns, hwritten]

/-- An empty pattern leaves nothing out. -/
theorem not_covers_empty (name : String) : (ofPatterns [""] []).covers name = false := by
  simp [covers, ofPatterns]

theorem reachesBelow_empty : ReachesBelow "" := by
  have hempty : Glob.ofString (withoutOuterDots "") = [] := by
    simp [withoutOuterDots, Text.trimBoth, Glob.ofString, Glob.parts]
  exact .inl fun part hpart => by simp [hempty] at hpart

/-- The package patterns that leave out, with the classes of a package, those of all packages
below it are the ones that reach below. -/
theorem reachesBelow_iff {written : String} :
    ReachesBelow written ↔
      ∀ packages classes : List String, written ∈ packages → ∀ q r, isBelow r q = true →
        (∀ name, Names.qualifier name = q → (ofPatterns [written] []).covers name = true) →
        ∀ name, Names.qualifier name = r → (ofPatterns packages classes).covers name = true := by
  constructor
  · rintro h packages classes hmem q _ hr hq name rfl
    have hmember := hq _ (Names.qualifier_member q)
    have hwritten : written ≠ "" := by
      rintro rfl
      rw [not_covers_empty] at hmember
      cases hmember
    rw [covers_pattern hwritten, Names.qualifier_member] at hmember
    rw [covers, Bool.or_eq_true, List.any_eq_true]
    refine .inl ⟨withoutOuterDots written, ?_, coversPackage_below h hr hmember⟩
    exact List.mem_map_of_mem (List.mem_filter.mpr ⟨hmem, by simpa using hwritten⟩)
  · intro h
    by_contra hnot
    obtain ⟨q, r, hr, hq, hnr⟩ := exists_not_coversPackage_below hnot
    have hwritten : written ≠ "" := by
      rintro rfl
      exact hnot reachesBelow_empty
    have hall := h [written] [] (List.mem_singleton_self _) q r hr
      (fun name hname => by rw [covers_pattern hwritten, hname, hq]) _ (Names.qualifier_member r)
    rw [covers_pattern hwritten, Names.qualifier_member, hnr] at hall
    cases hall

/-- A wildcard at the end covers one package below `p`, but not what is below that one. -/
example : (ofPatterns ["p.?"] []).covers "p.q.C" = true ∧
    (ofPatterns ["p.?"] []).covers "p.q.r.D" = false := by decide +kernel

end Exclusion

end ApiSurface
