/-
ApiSurface.Proofs.Outcome — when computations that may fail succeed.

The lemmas open sequences, maps and lists of computations that give a value or say why
there is none. Reading a fact about a result off a program goes through them, one for
each step.

Two computations end alike if both give results, and related ones, or both fail, for
related causes. `EndAlike` goes through programs step by step as well; with equality in
place of both relations it is equality of outcomes (`endAlike_eq_iff`).
-/
import Mathlib.Data.List.Forall2

namespace ApiSurface

variable {ε ε' α β : Type}

/-- A sequence succeeds exactly when both parts do. -/
theorem bind_eq_ok {x : Except ε α} {f : α → Except ε β} {b : β} :
    x >>= f = .ok b ↔ ∃ a, x = .ok a ∧ f a = .ok b := by
  cases x with
  | error why => simp [bind, Except.bind]
  | ok a => simp [bind, Except.bind]

/-- A sequence fails if its first part does, or the second part after the result of the first. -/
theorem bind_eq_error {x : Except ε α} {f : α → Except ε β} {why : ε} :
    x >>= f = .error why ↔ x = .error why ∨ ∃ a, x = .ok a ∧ f a = .error why := by
  cases x with
  | error cause => simp [bind, Except.bind]
  | ok a => simp [bind, Except.bind]

theorem mapError_eq_ok {x : Except ε α} {f : ε → ε'} {a : α} :
    x.mapError f = .ok a ↔ x = .ok a := by
  cases x <;> simp [Except.mapError]

theorem map_eq_ok {x : Except ε α} {f : α → β} {b : β} :
    x.map f = .ok b ↔ ∃ a, x = .ok a ∧ b = f a := by
  cases x <;> simp [Except.map, eq_comm]

theorem toOption_eq_some {x : Except ε α} {a : α} : x.toOption = some a ↔ x = .ok a := by
  cases x <;> simp [Except.toOption]

theorem map_eq_error {x : Except ε α} {f : α → β} {why : ε} :
    x.map f = .error why ↔ x = .error why := by
  cases x <;> simp [Except.map]

theorem exists_map_eq_ok_iff {x : Except ε α} {f : α → β} :
    (∃ b, x.map f = .ok b) ↔ ∃ a, x = .ok a := by
  cases x <;> simp [Except.map]

/-- Sequences agree if they start alike and go on alike from what the start gives. -/
theorem bind_congr_ok {x y : Except ε α} {f g : α → Except ε β} (hxy : x = y)
    (h : ∀ a, y = .ok a → f a = g a) : x >>= f = y >>= g := by
  subst hxy
  cases x with
  | error why => rfl
  | ok a => exact h a rfl

/-- A function that may fail gives results for a list exactly if it gives one for each
element. -/
theorem mapM_eq_ok {f : α → Except ε β} {l : List α} {results : List β} :
    l.mapM f = .ok results ↔ List.Forall₂ (fun a b => f a = .ok b) l results := by
  induction l generalizing results with
  | nil => cases results <;> simp [pure, Except.pure]
  | cons a rest ih =>
    rw [List.mapM_cons, bind_eq_ok]
    constructor
    · rintro ⟨b, hb, h⟩
      obtain ⟨others, ho, h⟩ := bind_eq_ok.mp h
      cases h
      exact .cons hb (ih.mp ho)
    · intro h
      cases h with
      | @cons _ b _ others hb ho => exact ⟨b, hb, bind_eq_ok.mpr ⟨others, ih.mpr ho, rfl⟩⟩

/-- A function that fails for a list fails for an element of it, after results for all elements
before that one. -/
theorem exists_of_mapM_eq_error {f : α → Except ε β} {l : List α} {why : ε}
    (h : l.mapM f = .error why) :
    ∃ before a after, l = before ++ a :: after ∧ (∀ b ∈ before, ∃ r, f b = .ok r) ∧
      f a = .error why := by
  induction l with
  | nil => cases h
  | cons a rest ih =>
    cases ha : f a with
    | error cause =>
      rw [List.mapM_cons, ha] at h
      cases h
      exact ⟨[], a, rest, rfl, nofun, ha⟩
    | ok r =>
      have hrest : rest.mapM f = .error why := by
        rw [List.mapM_cons, ha] at h
        cases hothers : rest.mapM f with
        | error cause =>
          rw [hothers] at h
          cases h
          rfl
        | ok others =>
          rw [hothers] at h
          cases h
      obtain ⟨before, a', after, rfl, hbefore, ha'⟩ := ih hrest
      exact ⟨a :: before, a', after, rfl, List.forall_mem_cons.mpr ⟨⟨r, ha⟩, hbefore⟩, ha'⟩

/-- A function gives results for a list exactly if it does so for each element. -/
theorem exists_mapM_eq_ok_iff {f : α → Except ε β} {l : List α} :
    (∃ results, l.mapM f = .ok results) ↔ ∀ a ∈ l, ∃ b, f a = .ok b := by
  constructor
  · rintro ⟨results, h⟩ a ha
    have hresults := mapM_eq_ok.mp h
    clear h
    induction hresults with
    | nil => cases ha
    | @cons a' b _ _ hb _ ih =>
      rcases List.mem_cons.mp ha with rfl | ha
      · exact ⟨b, hb⟩
      · exact ih ha
  · intro h
    cases hl : l.mapM f with
    | ok results => exact ⟨results, rfl⟩
    | error why =>
      obtain ⟨before, a, after, rfl, -, ha⟩ := exists_of_mapM_eq_error hl
      obtain ⟨b, hb⟩ := h a (List.mem_append_right _ List.mem_cons_self)
      rw [ha] at hb
      cases hb

/-- Outcomes in a row are results exactly if each of them is one. -/
theorem mapM_id_eq_ok {outcomes : List (Except ε α)} {results : List α} :
    outcomes.mapM id = .ok results ↔ outcomes = results.map .ok := by
  induction outcomes generalizing results with
  | nil => cases results <;> simp [pure, Except.pure]
  | cons outcome outcomes ih =>
    rw [List.mapM_cons, bind_eq_ok]
    constructor
    · rintro ⟨a, ha, h⟩
      obtain ⟨others, ho, h⟩ := bind_eq_ok.mp h
      cases h
      rw [ih.mp ho, List.map_cons]
      exact congrArg (· :: _) ha
    · intro h
      cases results with
      | nil => cases h
      | cons a others =>
        rw [List.map_cons, List.cons.injEq] at h
        exact ⟨a, h.1, bind_eq_ok.mpr ⟨others, ih.mpr h.2, rfl⟩⟩

/-- What each step of a fold preserves holds of its result. -/
theorem foldlM_preserves {P : β → Prop} {f : β → α → Except ε β}
    (hstep : ∀ b a b', P b → f b a = .ok b' → P b') {l : List α} {b b' : β} (hb : P b)
    (h : l.foldlM f b = .ok b') : P b' := by
  induction l generalizing b with
  | nil =>
    cases h
    exact hb
  | cons a rest ih =>
    rw [List.foldlM_cons] at h
    obtain ⟨next, hnext, h⟩ := bind_eq_ok.mp h
    exact ih (hstep b a next hb hnext) h

/-- Two computations end alike: with results that are related, or with causes that are. -/
inductive EndAlike (E : ε → ε → Prop) (R : α → β → Prop) : Except ε α → Except ε β → Prop where
  | error {why why' : ε} : E why why' → EndAlike E R (.error why) (.error why')
  | ok {a : α} {b : β} : R a b → EndAlike E R (.ok a) (.ok b)

theorem endAlike_eq_iff {x y : Except ε α} : EndAlike Eq Eq x y ↔ x = y := by
  constructor
  · intro h
    cases h with
    | error he => rw [he]
    | ok hr => rw [hr]
  · rintro rfl
    cases x with
    | error why => exact .error rfl
    | ok a => exact .ok rfl

namespace EndAlike

variable {E : ε → ε → Prop} {R : α → β → Prop}

theorem refl {R : α → α → Prop} (hE : ∀ why, E why why) (hR : ∀ a, R a a) (x : Except ε α) :
    EndAlike E R x x := by
  cases x with
  | error why => exact .error (hE why)
  | ok a => exact .ok (hR a)

theorem of_ok {x : Except ε α} {y : Except ε β} (h : EndAlike E R x y) {a : α} (hx : x = .ok a) :
    ∃ b, y = .ok b ∧ R a b := by
  subst hx
  cases h with
  | ok hr => exact ⟨_, rfl, hr⟩

theorem of_error {x : Except ε α} {y : Except ε β} (h : EndAlike E R x y) {why : ε}
    (hx : x = .error why) : ∃ why', y = .error why' ∧ E why why' := by
  subst hx
  cases h with
  | error he => exact ⟨_, rfl, he⟩

/-- What goes on alike from results that are related ends alike. -/
theorem bind {γ δ : Type} {S : γ → δ → Prop} {x : Except ε α} {y : Except ε β}
    {f : α → Except ε γ} {g : β → Except ε δ} (h : EndAlike E R x y)
    (hfg : ∀ a b, R a b → EndAlike E S (f a) (g b)) : EndAlike E S (x >>= f) (y >>= g) := by
  cases h with
  | error he => exact .error he
  | ok hr => exact hfg _ _ hr

/-- A result of the one is a result of the other. -/
theorem eq_ok_iff {x y : Except ε α} (h : EndAlike E Eq x y) {a : α} : x = .ok a ↔ y = .ok a := by
  cases h with
  | error => simp
  | ok hr => rw [hr]

end EndAlike

end ApiSurface
