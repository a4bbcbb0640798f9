/-
ApiSurface.Proofs.ClassPath.Names — lists of names as sets of names.

Sorting and dropping repetitions change neither which names a list holds nor,
together, leave more than one way to write them down: `sorted_distinct_lt` says
that each name stands once and in the order of code points. `lookup_eq_some`
reads an association list whose keys are distinct as a map.
-/
import ApiSurface.ClassPath.Names
import Mathlib.Data.List.Nodup
import Mathlib.Data.List.Sort
import Mathlib.Data.String.Basic

namespace ApiSurface

namespace Names

@[simp] theorem mem_sorted {name : String} {names : List String} :
    name ∈ sorted names ↔ name ∈ names := List.mem_mergeSort

@[simp] theorem mem_distinct {name : String} {names : List String} :
    name ∈ distinct names ↔ name ∈ names := List.mem_eraseDups

theorem nodup_eraseDups (names : List String) : names.eraseDups.Nodup := by
  match names with
  | [] => simp
  | name :: rest =>
    have hlt : (rest.filter fun n => !n == name).length < rest.length + 1 :=
      Nat.lt_succ_of_le (List.length_filter_le _ _)
    rw [List.eraseDups_cons, List.nodup_cons]
    refine ⟨?_, nodup_eraseDups _⟩
    rw [List.mem_eraseDups]
    simp
termination_by names.length

theorem nodup_distinct (names : List String) : (distinct names).Nodup := nodup_eraseDups names

theorem nodup_sorted {names : List String} (h : names.Nodup) : (sorted names).Nodup :=
  (List.mergeSort_perm names _).nodup_iff.mpr h

/-- Sorted names stand in order. -/
theorem sorted_le (names : List String) : (sorted names).Pairwise (· ≤ ·) := by
  have h : (sorted names).Pairwise fun a b => decide (a ≤ b) = true :=
    List.pairwise_mergeSort
      (fun a b c hab hbc => by
        rw [decide_eq_true_eq] at *
        exact le_trans hab hbc)
      (fun a b => by simpa using le_total a b) names
  exact h.imp fun hab => by simpa using hab

/-- Sorted names without repetitions stand in strict order. -/
theorem sorted_distinct_lt (names : List String) :
    (sorted (distinct names)).Pairwise (· < ·) := by
  have hne : (sorted (distinct names)).Pairwise (· ≠ ·) := nodup_sorted (nodup_distinct names)
  exact ((sorted_le (distinct names)).and hne).imp fun h => lt_of_le_of_ne h.1 h.2

/-- Names in order and without repetitions depend on nothing but which names there are. -/
theorem sorted_distinct_congr {names names' : List String}
    (h : ∀ name, name ∈ names ↔ name ∈ names') : sorted (distinct names) = sorted (distinct names') :=
  (sorted_distinct_lt names).eq_of_mem_iff (sorted_distinct_lt names') (by simpa using h)

end Names

/-- In an association list with distinct keys every entry is found under its key. -/
theorem lookup_eq_some_iff_mem {κ α : Type} [BEq κ] [LawfulBEq κ] {l : List (κ × α)}
    (h : (l.map (·.1)).Nodup) {key : κ} {value : α} :
    l.lookup key = some value ↔ (key, value) ∈ l := by
  induction l with
  | nil => simp
  | cons entry rest ih =>
    obtain ⟨k, v⟩ := entry
    rw [List.map_cons, List.nodup_cons] at h
    by_cases hk : key = k
    · subst hk
      have hout : (key, value) ∉ rest := fun hm => h.1 (List.mem_map_of_mem (f := (·.1)) hm)
      simp [hout, eq_comm]
    · have hb : (key == k) = false := by simp [hk]
      simp [List.lookup_cons, hb, ih h.2, hk]

theorem lookup_isSome_iff_mem {α : Type} {l : List (String × α)} {key : String} :
    (l.lookup key).isSome ↔ key ∈ l.map (·.1) := by
  rw [List.lookup_isSome_iff]
  constructor
  · rintro ⟨entry, hm, hk⟩
    exact List.mem_map.mpr ⟨entry, hm, (beq_iff_eq.mp hk).symm⟩
  · intro hm
    obtain ⟨entry, hentry, rfl⟩ := List.mem_map.mp hm
    exact ⟨entry, hentry, by simp⟩

theorem lookup_eq_none_iff_not_mem {α : Type} {l : List (String × α)} {key : String} :
    l.lookup key = none ↔ key ∉ l.map (·.1) := by
  rw [← lookup_isSome_iff_mem, Option.not_isSome_iff_eq_none]

end ApiSurface
