/-
ApiSurface.Proofs.Disk.Search — which files a search finds.

A search below a place finds the files that stand there, each of them once, in the order of
places (`mem_filesBelow_iff`, `nodup_filesBelow`). That order is a linear one, so what a
search finds is determined by which files there are: if two disks have the same files of a
kind below a place, these are found on both in the same order (`filter_filesBelow_eq`).
-/
import ApiSurface.Proofs.Disk.Tree
import Mathlib.Data.List.Perm.Basic
import Mathlib.Data.String.Basic

namespace ApiSurface.Disk

variable {d d' : Disk} {place : Place}

/-! ## 1. The order of places -/

theorem placeLe_trans (a b c : Place) (hab : placeLe a b = true) (hbc : placeLe b c = true) :
    placeLe a c = true := by
  induction a generalizing b c with
  | nil => rfl
  | cons x a ih =>
    cases b with
    | nil => cases hab
    | cons y b =>
    cases c with
    | nil => cases hbc
    | cons z c =>
    rw [placeLe] at hab hbc ⊢
    by_cases hxy : x = y
    · subst hxy
      rw [if_pos rfl] at hab
      split_ifs at hbc ⊢
      · exact ih b c hab hbc
      · exact hbc
    · rw [if_neg hxy, decide_eq_true_iff] at hab
      by_cases hyz : y = z
      · subst hyz
        rw [if_neg hxy, decide_eq_true_iff]
        exact hab
      · rw [if_neg hyz, decide_eq_true_iff] at hbc
        rw [if_neg (lt_trans hab hbc).ne, decide_eq_true_iff]
        exact lt_trans hab hbc

theorem placeLe_total (a b : Place) : (placeLe a b || placeLe b a) = true := by
  induction a generalizing b with
  | nil => rfl
  | cons x a ih =>
    cases b with
    | nil => rfl
    | cons y b =>
    rw [placeLe, placeLe]
    by_cases hxy : x = y
    · subst hxy
      rw [if_pos rfl, if_pos rfl]
      exact ih b
    · rw [if_neg hxy, if_neg (Ne.symm hxy)]
      simpa using lt_or_gt_of_ne hxy

theorem placeLe_antisymm (a b : Place) (hab : placeLe a b = true) (hba : placeLe b a = true) :
    a = b := by
  induction a generalizing b with
  | nil =>
    cases b with
    | nil => rfl
    | cons y b => cases hba
  | cons x a ih =>
    cases b with
    | nil => cases hab
    | cons y b =>
    rw [placeLe] at hab hba
    by_cases hxy : x = y
    · subst hxy
      rw [if_pos rfl] at hab hba
      rw [ih b hab hba]
    · rw [if_neg hxy, decide_eq_true_iff] at hab
      rw [if_neg (Ne.symm hxy), decide_eq_true_iff] at hba
      exact absurd hab (lt_asymm hba)

/-! ## 2. What is found -/

/-- The files that a search finds below a place are those that stand there. -/
theorem mem_filesBelow_iff (hd : d.HasDistinctPlaces) {parts : List String} (hparts : parts ≠ []) :
    parts ∈ d.filesBelow place ↔ ∃ bytes, d.node? (place ++ parts) = some (.file bytes) := by
  have hne : place ++ parts ≠ [] := by simp [hparts]
  rw [filesBelow, List.mem_mergeSort, List.mem_filterMap]
  constructor
  · rintro ⟨⟨q, node⟩, hmem, hfound⟩
    cases node with
    | folder => cases hfound
    | file bytes =>
      dsimp only at hfound
      split_ifs at hfound with hcond
      cases hfound
      rw [Bool.and_eq_true, List.isPrefixOf_iff_prefix] at hcond
      obtain ⟨rest, rfl⟩ := hcond.1
      refine ⟨bytes, ?_⟩
      rw [List.drop_left] at hne ⊢
      rw [node?_of_ne hne]
      exact (lookup_eq_some_iff_mem hd).mpr hmem
  · rintro ⟨bytes, hn⟩
    rw [node?_of_ne hne] at hn
    refine ⟨(place ++ parts, .file bytes), (lookup_eq_some_iff_mem hd).mp hn, ?_⟩
    have hbelow : place.isPrefixOf (place ++ parts) = true :=
      List.isPrefixOf_iff_prefix.mpr (List.prefix_append place parts)
    have hdiffer : (place ++ parts != place) = true := by simp [hparts]
    simp only [hbelow, hdiffer, Bool.and_self, if_true, List.drop_left]

/-- A search finds no file twice. -/
theorem nodup_filesBelow (hd : d.HasDistinctPlaces) : (d.filesBelow place).Nodup := by
  rw [filesBelow, (List.mergeSort_perm _ _).nodup_iff, List.Nodup, List.pairwise_filterMap]
  refine (List.pairwise_map.mp hd).imp ?_
  rintro ⟨q, node⟩ ⟨q', node'⟩ hne parts hparts parts' hparts' rfl
  cases node with
  | folder => cases hparts
  | file =>
  cases node' with
  | folder => cases hparts'
  | file =>
  dsimp only at hparts hparts'
  split_ifs at hparts hparts' with hq hq'
  rw [Bool.and_eq_true, List.isPrefixOf_iff_prefix] at hq hq'
  obtain ⟨⟨rest, rfl⟩, -⟩ := hq
  obtain ⟨⟨rest', rfl⟩, -⟩ := hq'
  rw [List.drop_left, Option.some_inj] at hparts hparts'
  exact hne (by rw [hparts, hparts'])

/-- Where the same files of a kind stand below a place, a search finds the same ones. -/
theorem filter_filesBelow_eq {kind : List String → Bool} (hd : d.HasDistinctPlaces)
    (hd' : d'.HasDistinctPlaces) (hnil : kind [] = false)
    (hfiles : ∀ parts, kind parts = true → ((∃ bytes, d.node? (place ++ parts) = some (.file bytes)) ↔
      ∃ bytes, d'.node? (place ++ parts) = some (.file bytes))) :
    (d.filesBelow place).filter kind = (d'.filesBelow place).filter kind := by
  have hantisymm : ∀ a b, a ∈ (d.filesBelow place).filter kind →
      b ∈ (d'.filesBelow place).filter kind → placeLe a b = true → placeLe b a = true → a = b :=
    fun a b _ _ => placeLe_antisymm a b
  refine List.Perm.eq_of_pairwise hantisymm ?_ ?_ ?_
  · exact (List.pairwise_mergeSort placeLe_trans placeLe_total _).filter _
  · exact (List.pairwise_mergeSort placeLe_trans placeLe_total _).filter _
  · rw [List.perm_ext_iff_of_nodup ((nodup_filesBelow hd).filter _) ((nodup_filesBelow hd').filter _)]
    intro parts
    rw [List.mem_filter, List.mem_filter]
    refine and_congr_left fun hkind => ?_
    have hne : parts ≠ [] := by
      rintro rfl
      rw [hnil] at hkind
      cases hkind
    rw [mem_filesBelow_iff hd hne, mem_filesBelow_iff hd' hne]
    exact hfiles parts hkind

end ApiSurface.Disk
