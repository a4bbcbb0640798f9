/-
ApiSurface.Proofs.Universe.Ancestors — the walks up the hierarchy, as reachability.

A record refers to the record of its superclass and to those of its interfaces. Both walks
keep one promise, which is all that a proof about them needs: whatever a visited record
refers to is visited too, unless the walk started without it
(`mem_superclassesFrom_of_mem`, `mem_interfacesFrom_of_mem`). The walks start without the
record that they are for, so together with that record they are closed under references,
and hold all that references lead to (`mem_cons_superclasses_iff`,
`mem_cons_interfaces_iff`). Circles and diamonds, and names without a record, need no
cases of their own.
-/
import ApiSurface.Proofs.Universe.Agreement
import Mathlib.Logic.Relation

namespace ApiSurface

open Relation (ReflTransGen)

namespace Universe

/-! ## 1. References between records -/

/-- A record is that of the superclass of another one. -/
def SuperclassOf (u : Universe) (r p : ClassRecord) : Prop :=
  ∃ name, r.superclassName? = some name ∧ u.record? name = some p

/-- A record is that of an interface of another one. -/
def InterfaceOf (u : Universe) (r p : ClassRecord) : Prop :=
  ∃ name ∈ r.interfaces, u.record? name = some p

/-- A record lies above another one, or is the same: interfaces lead to it from an
interface; superclasses, and interfaces from there on, lead to it from a class. -/
def IsAbove (u : Universe) (r a : ClassRecord) : Prop :=
  if r.isInterface then ReflTransGen u.InterfaceOf r a
  else ∃ c, ReflTransGen u.SuperclassOf r c ∧ ReflTransGen u.InterfaceOf c a

/-- A list holds records of a universe, each under the name that it has there. -/
def Lists (u : Universe) (l : List (String × ClassRecord)) : Prop :=
  ∀ n p, l.lookup n = some p → u.record? n = some p

variable {u : Universe} {l : List (String × ClassRecord)} {name? : Option String}
  {pending : List String} {n : String} {r c p : ClassRecord}

theorem Lists.without (h : u.Lists l) (name : String) : u.Lists (without name l) := by
  intro n p hp
  rw [lookup_without] at hp
  split_ifs at hp
  exact h n p hp

theorem lists_without (u : Universe) (name : String) : u.Lists (Universe.without name u.records) :=
  Lists.without (l := u.records) (fun _ _ h => h) name

/-- In a list of records under their own names, each name leads to a record of this name. -/
theorem name_of_lookup_map {rs : List ClassRecord}
    (h : (rs.map fun r => (r.name, r)).lookup n = some p) : p.name = n := by
  obtain ⟨before, after, hsplit, -⟩ := List.lookup_eq_some_iff.mp h
  have hmem : (n, p) ∈ rs.map fun r => (r.name, r) := by
    rw [hsplit]
    simp
  obtain ⟨p', -, heq⟩ := List.mem_map.mp hmem
  cases heq
  rfl

/-! ## 2. What a walk meets -/

/-- Superclasses lead from a record to all that the walk up from it meets. -/
theorem reaches_of_mem_superclassesFrom (hl : u.Lists l) (hr : r.superclassName? = name?)
    (hp : p ∈ superclassesFrom l name?) : ReflTransGen u.SuperclassOf r p := by
  induction l, name? using superclassesFrom.induct generalizing r with
  | case1 l => simp [superclassesFrom] at hp
  | case2 l name hnone => simp [superclassesFrom_of_none hnone] at hp
  | case3 l name next hnext ih =>
    have hstep : u.SuperclassOf r next := ⟨name, hr, hl name next hnext⟩
    rw [superclassesFrom_of_some hnext] at hp
    rcases List.mem_cons.mp hp with rfl | hp
    · exact .single hstep
    · exact .head hstep (ih (hl.without name) rfl hp)

/-- Interfaces lead to all that the walk meets from a record of one of the names that it
starts with. -/
theorem reaches_of_mem_interfacesFrom (hl : u.Lists l) (hp : p ∈ interfacesFrom l pending) :
    ∃ name ∈ pending, ∃ start, u.record? name = some start ∧
      ReflTransGen u.InterfaceOf start p := by
  induction l, pending using interfacesFrom.induct with
  | case1 l => simp [interfacesFrom] at hp
  | case2 l name rest hnone ih =>
    rw [interfacesFrom_of_none hnone] at hp
    obtain ⟨first, hfirst, hlead⟩ := ih hl hp
    exact ⟨first, List.mem_cons_of_mem _ hfirst, hlead⟩
  | case3 l name rest next hnext ih =>
    rw [interfacesFrom_of_some hnext] at hp
    have hrecord : u.record? name = some next := hl name next hnext
    rcases List.mem_cons.mp hp with rfl | hp
    · exact ⟨name, List.mem_cons_self, p, hrecord, .refl⟩
    · obtain ⟨first, hfirst, start, hstart, hlead⟩ := ih (hl.without name) hp
      rcases List.mem_append.mp hfirst with hfirst | hfirst
      · exact ⟨first, List.mem_cons_of_mem _ hfirst, start, hstart, hlead⟩
      · exact ⟨name, List.mem_cons_self, next, hrecord, .head ⟨first, hfirst, hstart⟩ hlead⟩

/-- A walk up meets the superclasses of what it meets, as far as they are listed. -/
theorem mem_superclassesFrom_of_mem (hc : c ∈ superclassesFrom l name?)
    (hn : c.superclassName? = some n) (hp : l.lookup n = some p) :
    p ∈ superclassesFrom l name? := by
  induction l, name? using superclassesFrom.induct with
  | case1 l => simp [superclassesFrom] at hc
  | case2 l name hnone => simp [superclassesFrom_of_none hnone] at hc
  | case3 l name next hnext ih =>
    rw [superclassesFrom_of_some hnext] at hc ⊢
    by_cases hname : n = name
    · rw [hname, hnext, Option.some_inj] at hp
      exact hp ▸ List.mem_cons_self
    · have hp' : (Universe.without name l).lookup n = some p := by
        rw [lookup_without, if_neg hname, hp]
      refine List.mem_cons_of_mem _ ?_
      rcases List.mem_cons.mp hc with rfl | hc
      · rw [hn, superclassesFrom_of_some hp']
        exact List.mem_cons_self
      · exact ih hc hp'

/-- A walk through interfaces meets what it starts with, as far as it is listed. -/
theorem mem_interfacesFrom_of_pending (hn : n ∈ pending) (hp : l.lookup n = some p) :
    p ∈ interfacesFrom l pending := by
  induction l, pending using interfacesFrom.induct with
  | case1 l => cases hn
  | case2 l name rest hnone ih =>
    rw [interfacesFrom_of_none hnone]
    rcases List.mem_cons.mp hn with rfl | hn
    · rw [hnone] at hp
      cases hp
    · exact ih hn hp
  | case3 l name rest next hnext ih =>
    rw [interfacesFrom_of_some hnext]
    by_cases hname : n = name
    · rw [hname, hnext, Option.some_inj] at hp
      exact hp ▸ List.mem_cons_self
    · refine List.mem_cons_of_mem _ (ih ?_ ?_)
      · exact List.mem_append_left _ ((List.mem_cons.mp hn).resolve_left hname)
      · rw [lookup_without, if_neg hname, hp]

/-- A walk through interfaces meets the interfaces of what it meets, as far as they are
listed. -/
theorem mem_interfacesFrom_of_mem (hc : c ∈ interfacesFrom l pending) (hn : n ∈ c.interfaces)
    (hp : l.lookup n = some p) : p ∈ interfacesFrom l pending := by
  induction l, pending using interfacesFrom.induct with
  | case1 l => simp [interfacesFrom] at hc
  | case2 l name rest hnone ih =>
    rw [interfacesFrom_of_none hnone] at hc ⊢
    exact ih hc hp
  | case3 l name rest next hnext ih =>
    rw [interfacesFrom_of_some hnext] at hc ⊢
    by_cases hname : n = name
    · rw [hname, hnext, Option.some_inj] at hp
      exact hp ▸ List.mem_cons_self
    · have hp' : (Universe.without name l).lookup n = some p := by
        rw [lookup_without, if_neg hname, hp]
      refine List.mem_cons_of_mem _ ?_
      rcases List.mem_cons.mp hc with rfl | hc
      · exact mem_interfacesFrom_of_pending (List.mem_append_right _ hn) hp'
      · exact ih hc hp'

/-! ## 3. What lies above a record -/

/-- What a record of the universe refers to is the record itself, or listed without it. -/
theorem eq_or_lookup_without (hr : u.record? r.name = some r) (hp : u.record? n = some p) :
    p = r ∨ (Universe.without r.name u.records).lookup n = some p := by
  by_cases hname : n = r.name
  · rw [hname, hr, Option.some_inj] at hp
    exact .inl hp.symm
  · exact .inr (by rw [lookup_without, if_neg hname]; exact hp)

/-- The superclasses of a record and the record itself are all that superclasses lead to. -/
theorem mem_cons_superclasses_iff (hr : u.record? r.name = some r) :
    p ∈ r :: u.superclasses r ↔ ReflTransGen u.SuperclassOf r p := by
  constructor
  · intro hp
    rcases List.mem_cons.mp hp with rfl | hp
    · exact .refl
    · exact reaches_of_mem_superclassesFrom (lists_without u r.name) rfl hp
  · intro hreach
    induction hreach with
    | refl => exact List.mem_cons_self
    | tail _ hstep ih =>
      obtain ⟨n, hn, hp⟩ := hstep
      rcases eq_or_lookup_without hr hp with rfl | hlisted
      · exact List.mem_cons_self
      · refine List.mem_cons_of_mem _ ?_
        rcases List.mem_cons.mp ih with rfl | hc
        · rw [superclasses, hn, superclassesFrom_of_some hlisted]
          exact List.mem_cons_self
        · exact mem_superclassesFrom_of_mem hc hn hlisted

/-- The records whose interfaces a walk starts with: that of an interface alone, or else
those of a class and its superclasses. -/
def roots (u : Universe) (r : ClassRecord) : List ClassRecord :=
  if r.isInterface then [r] else r :: u.superclasses r

theorem interfaces_eq (u : Universe) (r : ClassRecord) :
    u.interfaces r =
      interfacesFrom (Universe.without r.name u.records) ((u.roots r).flatMap (·.interfaces)) := by
  rw [interfaces, roots]

/-- The interfaces of a record and the records that they are looked for at are all that
interfaces lead to from these. -/
theorem mem_roots_or_interfaces_iff (hr : u.record? r.name = some r) :
    p ∈ u.roots r ∨ p ∈ u.interfaces r ↔ ∃ c ∈ u.roots r, ReflTransGen u.InterfaceOf c p := by
  have hself : r ∈ u.roots r := by
    rw [roots]
    split_ifs
    · exact List.mem_singleton_self r
    · exact List.mem_cons_self
  rw [interfaces_eq]
  constructor
  · rintro (hp | hp)
    · exact ⟨p, hp, .refl⟩
    · obtain ⟨name, hname, start, hstart, hlead⟩ :=
        reaches_of_mem_interfacesFrom (lists_without u r.name) hp
      obtain ⟨c, hc, hname⟩ := List.mem_flatMap.mp hname
      exact ⟨c, hc, .head ⟨name, hname, hstart⟩ hlead⟩
  · rintro ⟨c, hc, hreach⟩
    induction hreach with
    | refl => exact .inl hc
    | tail _ hstep ih =>
      obtain ⟨n, hn, hp⟩ := hstep
      rcases eq_or_lookup_without hr hp with rfl | hlisted
      · exact .inl hself
      · rcases ih with hroot | hmet
        · exact .inr (mem_interfacesFrom_of_pending (List.mem_flatMap.mpr ⟨_, hroot, hn⟩) hlisted)
        · exact .inr (mem_interfacesFrom_of_mem hmet hn hlisted)

/-- What lies above a record is led to from the records that interfaces are looked for at. -/
theorem isAbove_iff (hr : u.record? r.name = some r) :
    u.IsAbove r p ↔ ∃ c ∈ u.roots r, ReflTransGen u.InterfaceOf c p := by
  rw [IsAbove, roots]
  split_ifs with hkind
  · simp
  · simp only [mem_cons_superclasses_iff hr]

end Universe

end ApiSurface
