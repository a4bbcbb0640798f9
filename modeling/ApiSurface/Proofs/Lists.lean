/-
ApiSurface.Proofs.Lists — sorted, searched and related lists.

Sorting is stable, so leaving elements out before sorting comes to the same as leaving
them out afterwards (`filter_mergeSort`). Where no two elements are equal in the order, the
sorted list does not depend on the order at the start (`mergeSort_eq_of_perm`), and a search
that only one element can end finds it in every order (`find?_eq_of_perm`).

Two lists whose elements are related one by one are the two sides of one list of pairs, so
they are sorted alike (`forall₂_mergeSort`). Shuffled lists hold related elements too, but
each in an order of its own: sorting and searching do not tell them apart from lists that
are related one by one, where no two elements are equal to the sort or to the search.
-/
import Mathlib.Data.List.Forall2
import Mathlib.Data.List.Sort

namespace ApiSurface

variable {α β : Type}

/-! ## 1. Sorting -/

section

variable {le : α → α → Bool} (trans : ∀ a b c, le a b = true → le b c = true → le a c = true)
  (total : ∀ a b, (le a b || le b a) = true)
include trans total

/-- A new element goes behind all that are less than it, and before all others. -/
theorem exists_mergeSort_cons (a : α) (l : List α) :
    ∃ less others, (a :: l).mergeSort le = less ++ a :: others ∧ l.mergeSort le = less ++ others ∧
      (∀ b ∈ less, le a b = false) ∧ ∀ b ∈ others, le a b = true := by
  obtain ⟨less, others, hcons, hl, hless⟩ := List.mergeSort_cons trans total a l
  have hsorted := List.pairwise_mergeSort trans total (a :: l)
  rw [hcons, List.pairwise_append] at hsorted
  exact ⟨less, others, hcons, hl, fun b hb => by simpa using hless b hb,
    fun b hb => List.rel_of_pairwise_cons hsorted.2.1 hb⟩

/-- Elements can be left out before sorting or afterwards. -/
theorem filter_mergeSort (p : α → Bool) (l : List α) :
    (l.mergeSort le).filter p = (l.filter p).mergeSort le := by
  induction l with
  | nil => simp
  | cons a l ih =>
    obtain ⟨less, others, hcons, hl, hless, hothers⟩ := exists_mergeSort_cons trans total a l
    rw [hl, List.filter_append] at ih
    rw [hcons, List.filter_append]
    by_cases ha : p a = true
    · obtain ⟨less', others', hcons', hl', hless', hothers'⟩ :=
        exists_mergeSort_cons trans total a (l.filter p)
      -- Both sides split one list into what is less than the element and what is not.
      have hsplit : ∀ xs ys : List α, (∀ b ∈ xs, le a b = false) → (∀ b ∈ ys, le a b = true) →
          (xs ++ ys).filter (!le a ·) = xs ∧ (xs ++ ys).filter (le a ·) = ys := fun xs ys hx hy => by
        rw [List.filter_append, List.filter_append, List.filter_eq_self.mpr (by simpa using hx),
          List.filter_eq_nil_iff.mpr (by simpa using hy),
          List.filter_eq_nil_iff.mpr (by simpa using hx), List.filter_eq_self.mpr hy]
        simp
      have hfst := hsplit (less.filter p) (others.filter p)
        (fun b hb => hless b (List.mem_of_mem_filter hb))
        (fun b hb => hothers b (List.mem_of_mem_filter hb))
      have hsnd := hsplit less' others' hless' hothers'
      rw [← hl', ← ih, hfst.1, hfst.2] at hsnd
      rw [List.filter_cons_of_pos ha, List.filter_cons_of_pos ha, hcons', hsnd.1, hsnd.2]
    · rw [List.filter_cons_of_neg ha, List.filter_cons_of_neg ha, ih]

/-- Where only equal elements are equal in the order, all orders at the start are sorted
alike. -/
theorem mergeSort_eq_of_perm {l l' : List α} (hl : l.Perm l')
    (h : ∀ a ∈ l, ∀ b ∈ l, le a b = true → le b a = true → a = b) :
    l.mergeSort le = l'.mergeSort le := by
  refine List.Perm.eq_of_pairwise (fun a b ha hb => ?_) (List.pairwise_mergeSort trans total l)
    (List.pairwise_mergeSort trans total l')
    ((List.mergeSort_perm l le).trans (hl.trans (List.mergeSort_perm l' le).symm))
  exact h a (List.mem_mergeSort.mp ha) b (hl.mem_iff.mpr (List.mem_mergeSort.mp hb))

end

/-! ## 2. Searching -/

/-- A search that only one element can end finds it in every order. -/
theorem find?_eq_of_perm {p : α → Bool} {l l' : List α} (hl : l.Perm l')
    (h : ∀ a ∈ l, ∀ b ∈ l, p a = true → p b = true → a = b) : l.find? p = l'.find? p := by
  cases hfound : l'.find? p with
  | none =>
    rw [List.find?_eq_none] at hfound ⊢
    exact fun a ha => hfound a (hl.mem_iff.mp ha)
  | some b =>
    have hb := hl.mem_iff.mpr (List.mem_of_find?_eq_some hfound)
    have hpb := List.find?_some hfound
    obtain ⟨a, ha⟩ := Option.isSome_iff_exists.mp (List.find?_isSome.mpr ⟨b, hb, hpb⟩)
    rw [ha, h a (List.mem_of_find?_eq_some ha) b hb (List.find?_some ha) hpb]

/-! ## 3. Rows -/

/-- An element of a row stands in the separator or in a word. -/
theorem mem_of_mem_intercalate {separator : List α} {words : List (List α)} {a : α}
    (h : a ∈ separator.intercalate words) : a ∈ separator ∨ ∃ w ∈ words, a ∈ w := by
  induction words with
  | nil => simp at h
  | cons w words ih =>
    cases words with
    | nil => exact .inr ⟨w, List.mem_cons_self, by simpa using h⟩
    | cons v words =>
      rw [List.intercalate_cons_cons, List.mem_append, List.mem_append] at h
      rcases h with (h | h) | h
      · exact .inr ⟨w, List.mem_cons_self, h⟩
      · exact .inl h
      · exact (ih h).imp_right fun ⟨u, hu, ha⟩ => ⟨u, List.mem_cons_of_mem _ hu, ha⟩

/-- What stands behind the last word of a row stands behind the row. -/
theorem intercalate_concat_append {separator : List α} (words : List (List α)) (w z : List α) :
    separator.intercalate (words ++ [w ++ z]) = separator.intercalate (words ++ [w]) ++ z := by
  induction words with
  | nil => simp
  | cons v words ih =>
    cases words with
    | nil => simp
    | cons u words =>
      simp only [List.cons_append, List.intercalate_cons_cons, List.append_assoc] at ih ⊢
      rw [ih]

/-- A row of parts, each with a mark behind it, is cut into the parts at the marks. -/
theorem splitOnP_flatMap_concat {p : β → Bool} {part : α → List β} {mark : β}
    (hmark : p mark = true) {items : List α} (h : ∀ a ∈ items, ∀ b ∈ part a, p b = false) :
    (items.flatMap fun a => part a ++ [mark]).splitOnP p = items.map part ++ [[]] := by
  induction items with
  | nil => exact List.splitOnP_nil
  | cons a rest ih =>
    obtain ⟨ha, hrest⟩ := List.forall_mem_cons.mp h
    rw [List.flatMap_cons, List.append_assoc, List.singleton_append,
      List.splitOnP_append_cons _ _ hmark, List.splitOnP_eq_singleton ha, ih hrest]
    rfl

/-! ## 4. Related lists -/

section

variable {R : α → β → Prop} {l : List α} {l' : List β}

theorem exists_of_mem_left (h : List.Forall₂ R l l') {a : α} (ha : a ∈ l) : ∃ b ∈ l', R a b := by
  induction h with
  | nil => cases ha
  | @cons a' b' l l' hab _ ih =>
    rcases List.mem_cons.mp ha with rfl | ha
    · exact ⟨b', List.mem_cons_self, hab⟩
    · obtain ⟨b, hb, hr⟩ := ih ha
      exact ⟨b, List.mem_cons_of_mem _ hb, hr⟩

theorem exists_of_mem_right (h : List.Forall₂ R l l') {b : β} (hb : b ∈ l') : ∃ a ∈ l, R a b :=
  exists_of_mem_left (R := flip R) h.flip hb

/-- Related lists are the two sides of a list of related pairs. -/
theorem forall₂_iff_exists_pairs :
    List.Forall₂ R l l' ↔
      ∃ pairs : List (α × β),
        l = pairs.map (·.1) ∧ l' = pairs.map (·.2) ∧ ∀ q ∈ pairs, R q.1 q.2 := by
  constructor
  · intro h
    induction h with
    | nil => exact ⟨[], rfl, rfl, nofun⟩
    | @cons a b l l' hab _ ih =>
      obtain ⟨pairs, rfl, rfl, hall⟩ := ih
      exact ⟨(a, b) :: pairs, rfl, rfl, List.forall_mem_cons.mpr ⟨hab, hall⟩⟩
  · rintro ⟨pairs, rfl, rfl, hall⟩
    rw [List.forall₂_map_left_iff, List.forall₂_map_right_iff, List.forall₂_same]
    exact hall

/-- Related lists are sorted alike, where both orders agree on related elements. -/
theorem forall₂_mergeSort {le : α → α → Bool} {le' : β → β → Bool}
    (hle : ∀ a a' b b', R a b → R a' b' → le a a' = le' b b') (h : List.Forall₂ R l l') :
    List.Forall₂ R (l.mergeSort le) (l'.mergeSort le') := by
  obtain ⟨pairs, rfl, rfl, hall⟩ := forall₂_iff_exists_pairs.mp h
  refine forall₂_iff_exists_pairs.mpr
    ⟨pairs.mergeSort fun q q' => le q.1 q'.1, ?_, ?_, fun q hq => hall q (List.mem_mergeSort.mp hq)⟩
  · exact (List.map_mergeSort (f := Prod.fst) (s := le) fun q _ q' _ => rfl).symm
  · exact (List.map_mergeSort (f := Prod.snd) (s := le') fun q hq q' hq' =>
      hle _ _ _ _ (hall q hq) (hall q' hq')).symm

/-- Related lists are searched alike. -/
theorem forall₂_find? {p : α → Bool} {q : β → Bool} (hpq : ∀ a b, R a b → p a = q b)
    (h : List.Forall₂ R l l') : Option.Rel R (l.find? p) (l'.find? q) := by
  induction h with
  | nil => exact .none
  | @cons a b l l' hab _ ih =>
    rw [List.find?_cons, List.find?_cons, hpq a b hab]
    cases q b with
    | true => exact .some hab
    | false => exact ih

end

/-- Related values, if there are any, are mapped to equal ones. -/
theorem map_eq_of_rel {γ : Type} {R : α → β → Prop} {found : Option α} {found' : Option β}
    {f : α → γ} {g : β → γ} (h : Option.Rel R found found') (hfg : ∀ a b, R a b → f a = g b) :
    found.map f = found'.map g := by
  cases h with
  | none => rfl
  | some hab => rw [Option.map_some, Option.map_some, hfg _ _ hab]

/-! ## 5. Shuffled lists -/

/-- Two lists hold related elements, each list in an order of its own. -/
def Shuffled (R : α → β → Prop) (l : List α) (l' : List β) : Prop :=
  ∃ ordered, l.Perm ordered ∧ List.Forall₂ R ordered l'

namespace Shuffled

variable {R : α → β → Prop} {l : List α} {l' : List β} (h : Shuffled R l l')
include h

theorem exists_left {a : α} (ha : a ∈ l) : ∃ b ∈ l', R a b := by
  obtain ⟨ordered, hperm, hall⟩ := h
  exact exists_of_mem_left hall (hperm.mem_iff.mp ha)

theorem exists_right {b : β} (hb : b ∈ l') : ∃ a ∈ l, R a b := by
  obtain ⟨ordered, hperm, hall⟩ := h
  obtain ⟨a, ha, hab⟩ := exists_of_mem_right hall hb
  exact ⟨a, hperm.mem_iff.mpr ha, hab⟩

/-- Shuffled lists are mapped to shuffled lists. -/
theorem map {γ δ : Type} {S : γ → δ → Prop} {f : α → γ} {g : β → δ}
    (hfg : ∀ a b, R a b → S (f a) (g b)) : Shuffled S (l.map f) (l'.map g) := by
  obtain ⟨ordered, hperm, hall⟩ := h
  exact ⟨ordered.map f, hperm.map f, List.rel_map hfg hall⟩

/-- Sorting puts shuffled lists in one order, where only equal elements are equal in it. -/
theorem mergeSort {le : α → α → Bool} {le' : β → β → Bool}
    (trans : ∀ a b c, le a b = true → le b c = true → le a c = true)
    (total : ∀ a b, (le a b || le b a) = true)
    (hle : ∀ a a' b b', R a b → R a' b' → le a a' = le' b b')
    (hanti : ∀ a ∈ l, ∀ b ∈ l, le a b = true → le b a = true → a = b) :
    List.Forall₂ R (l.mergeSort le) (l'.mergeSort le') := by
  obtain ⟨ordered, hperm, hall⟩ := h
  rw [mergeSort_eq_of_perm trans total hperm hanti]
  exact forall₂_mergeSort hle hall

/-- A search that only one element can end finds related elements. -/
theorem find? {p : α → Bool} {q : β → Bool} (hpq : ∀ a b, R a b → p a = q b)
    (hone : ∀ a ∈ l, ∀ b ∈ l, p a = true → p b = true → a = b) :
    Option.Rel R (l.find? p) (l'.find? q) := by
  obtain ⟨ordered, hperm, hall⟩ := h
  rw [find?_eq_of_perm hperm hone]
  exact forall₂_find? hpq hall

end Shuffled

end ApiSurface
