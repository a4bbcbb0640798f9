/-
ApiSurface.Proofs.Universe.Superclasses — a walk up the superclasses misses nothing above.

A class extends another one directly or through classes between them, as the class files
of a table say (`ClassTable.Extends`). A walk of the universe visits no name twice and
stops where it would, so it is not obvious that it meets all classes above its start. It
does: a class has one superclass, so on the shortest way up to a class no name comes
twice. `Climbs` counts the steps of that way, and a walk is ahead of all names with fewer
steps left.

The one class that a walk cannot meet is its start, also where the superclasses lead back
to it.
-/
import ApiSurface.Proofs.Universe.Agreement
import Mathlib.Logic.Relation

namespace ApiSurface

/-- A class extends another one, directly or through classes between them. -/
def ClassTable.Extends (t : ClassTable) : String → String → Prop :=
  Relation.TransGen fun a b => t.Refers a b .ordinary

namespace Universe

/-! ## 1. The shortest way up -/

/-- From a name it takes a number of steps up the superclasses to the first record of a
given name. -/
inductive Climbs (u : Universe) (base : String) : Nat → String → Prop where
  | here : u.Climbs base 0 base
  | up {k : Nat} {name parent : String} {r : ClassRecord} : name ≠ base →
      u.record? name = some r → r.superclassName? = some parent → u.Climbs base k parent →
      u.Climbs base (k + 1) name

variable {u : Universe} {base : String}

/-- The steps are counted in one way, since a class has one superclass. -/
theorem Climbs.unique {k j : Nat} {name : String} (hk : u.Climbs base k name)
    (hj : u.Climbs base j name) : k = j := by
  induction hk generalizing j with
  | here =>
    cases hj with
    | here => rfl
    | up hne => exact absurd rfl hne
  | up hne hr hparent _ ih =>
    cases hj with
    | here => exact absurd rfl hne
    | up _ hr' hparent' hj =>
      rw [hr, Option.some_inj] at hr'
      subst hr'
      rw [hparent, Option.some_inj] at hparent'
      subst hparent'
      rw [ih hj]

/-- A walk meets the record above it if no name on the way was visited before. -/
theorem Climbs.mem_superclassesFrom {k : Nat} {name : String} {rbase : ClassRecord}
    {unvisited : List (String × ClassRecord)} (hk : u.Climbs base k name)
    (hbase : u.record? base = some rbase)
    (hahead : ∀ j ≤ k, ∀ n, u.Climbs base j n → unvisited.lookup n = u.record? n) :
    rbase ∈ superclassesFrom unvisited (some name) := by
  induction hk generalizing unvisited with
  | here =>
    have hlookup : unvisited.lookup base = some rbase := by
      rw [hahead 0 (Nat.le_refl 0) base .here, hbase]
    rw [superclassesFrom_of_some hlookup]
    exact List.mem_cons_self
  | @up k name parent r hne hr hparent hk ih =>
    have hlookup : unvisited.lookup name = some r := by
      rw [hahead (k + 1) (Nat.le_refl _) name (.up hne hr hparent hk), hr]
    rw [superclassesFrom_of_some hlookup, hparent]
    refine List.mem_cons_of_mem _ (ih ?_)
    intro j hj n hn
    -- A name with fewer steps left is not the one that was just visited.
    have hother : n ≠ name := by
      rintro rfl
      have := hn.unique (.up hne hr hparent hk)
      omega
    rw [lookup_without, if_neg hother]
    exact hahead j (Nat.le_succ_of_le hj) n hn

/-- A class below a name extends it, if the records of both are under their own names. -/
theorem Climbs.extends? {k : Nat} {name : String} {r rbase : ClassRecord}
    (hk : u.Climbs base k name) (hne : name ≠ base) (hr : u.record? name = some r)
    (hname : r.name = name) (hbase : u.record? base = some rbase) (hbasename : rbase.name = base) :
    u.extends? r base = true := by
  cases hk with
  | here => exact absurd rfl hne
  | @up k _ parent r' _ hr' hparent hk =>
    rw [hr, Option.some_inj] at hr'
    subst hr'
    have hmem : rbase ∈ u.superclasses r := by
      rw [superclasses, hname, hparent]
      refine hk.mem_superclassesFrom hbase ?_
      intro j hj n hn
      have hother : n ≠ name := by
        rintro rfl
        have := hn.unique (.up hne hr hparent hk)
        omega
      rw [lookup_without, if_neg hother, record?]
    rw [Universe.extends?, List.any_eq_true]
    exact ⟨rbase, hmem, by simp [hbasename]⟩

/-! ## 2. Universes of tables -/

variable {t : ClassTable} {x : Exclusion}

/-- What a known class extends is known, and the records lead up to it. -/
theorem Traces.exists_climbs (ht : t.Coherent) (h : Traces t x [] [] u) {name : String}
    (hk : u.knows name = true) (hup : t.Extends name base) :
    u.knows base = true ∧ ∃ k, u.Climbs base k name := by
  have hparent : ∀ {a b : String}, u.knows a = true → t.Refers a b .ordinary →
      u.knows b = true ∧ ∃ r, u.record? a = some r ∧ r.superclassName? = some b := by
    intro a b ha hrefers
    refine ⟨(h.knows_iff_inScope ht).mpr (((h.knows_iff_inScope ht).mp ha).step hrefers), ?_⟩
    obtain ⟨c, hc, hto⟩ := hrefers
    obtain ⟨isExternal, hr⟩ := h.record?_of_file? ht ha hc
    cases hto with
    | superclass hs hne =>
      exact ⟨_, hr, Option.mem_filter_iff.mpr ⟨hs, by simpa using hne⟩⟩
  induction hup using Relation.TransGen.head_induction_on with
  | @single a hrefers =>
    obtain ⟨hbase, r, hr, hsuper⟩ := hparent hk hrefers
    refine ⟨hbase, ?_⟩
    by_cases hne : a = base
    · exact ⟨0, hne ▸ .here⟩
    · exact ⟨1, .up hne hr hsuper .here⟩
  | @head a _ hrefers _ ih =>
    obtain ⟨hmiddle, r, hr, hsuper⟩ := hparent hk hrefers
    obtain ⟨hbase, k, hk⟩ := ih hmiddle
    refine ⟨hbase, ?_⟩
    by_cases hne : a = base
    · exact ⟨0, hne ▸ .here⟩
    · exact ⟨k + 1, .up hne hr hsuper hk⟩

/-- A record extends all other classes that its class file extends. -/
theorem Traces.extends?_of_extends (ht : t.Coherent) (h : Traces t x [] [] u)
    (hnames : t.StoredByName) {name : String} {r : ClassRecord} (hr : u.record? name = some r)
    (hne : name ≠ base) (hup : t.Extends name base) : u.extends? r base = true := by
  obtain ⟨hbase, k, hk⟩ := h.exists_climbs ht (knows_iff_exists.mpr ⟨r, hr⟩) hup
  obtain ⟨rbase, hrbase⟩ := knows_iff_exists.mp hbase
  exact hk.extends? hne hr (h.name_of_record? ht hnames hr) hrbase
    (h.name_of_record? ht hnames hrbase)

end Universe

end ApiSurface
