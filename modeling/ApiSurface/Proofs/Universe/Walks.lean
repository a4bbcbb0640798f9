/-
ApiSurface.Proofs.Universe.Walks — the walks up the hierarchy, name by name.

A universe may hold anything under a name: classes that extend each other in a circle or
refer to themselves, names without a record, a record under the name of another class. So
what a walk visits are names, and `walks_exact` says which: up the superclasses one
reference after the other, until there is none to follow (`EndsAt`), and through interfaces
every name that references lead to (`LedTo`), each of them once.

A name counts as visited once its record is taken off the list of the unvisited ones. The
queue of the interface walk may hold a name many times; what it leads to depends on the
names in it only, and not on how often or where they stand (`ledTo_cons_of_some`).
-/
import ApiSurface.Proofs.Universe.Ancestors
import Mathlib.Logic.Function.Iterate

namespace ApiSurface

namespace Universe

variable {u : Universe} {l : List (String × ClassRecord)} {name? : Option String}
  {visited starts pending : List String} {name n : String} {r p next : ClassRecord}

/-! ## 1. Up the superclasses -/

/-- The superclass reference behind a superclass reference: that of the record it names. -/
def nextSuperclass? (u : Universe) (name? : Option String) : Option String :=
  name?.bind fun n => (u.record? n).bind (·.superclassName?)

/-- The superclass reference that comes after `k` others. -/
def superclassAfter? (u : Universe) (name? : Option String) (k : Nat) : Option String :=
  u.nextSuperclass?^[k] name?

/-- Following superclass references ends after `k` of them: the next one is missing, or names
no record, or names a class that was visited, before the walk or on it. -/
def EndsAt (u : Universe) (visited : List String) (name? : Option String) (k : Nat) : Prop :=
  ∀ n ∈ u.superclassAfter? name? k,
    u.record? n = none ∨ n ∈ visited ∨ ∃ i < k, u.superclassAfter? name? i = some n

theorem superclassAfter?_succ (hr : u.record? name = some next) (k : Nat) :
    u.superclassAfter? (some name) (k + 1) = u.superclassAfter? next.superclassName? k := by
  have hnext : u.nextSuperclass? (some name) = next.superclassName? := by
    rw [nextSuperclass?, Option.bind_some, hr, Option.bind_some]
  rw [superclassAfter?, Function.iterate_succ_apply, hnext, superclassAfter?]

/-- Behind a record the walk goes on as one that has visited this record. -/
theorem endsAt_succ_iff (hr : u.record? name = some next) (k : Nat) :
    u.EndsAt visited (some name) (k + 1) ↔ u.EndsAt (name :: visited) next.superclassName? k := by
  have hvisited : ∀ n, (n ∈ visited ∨ ∃ i < k + 1, u.superclassAfter? (some name) i = some n) ↔
      n ∈ name :: visited ∨ ∃ i < k, u.superclassAfter? next.superclassName? i = some n := by
    intro n
    have hfirst : u.superclassAfter? (some name) 0 = some n ↔ n = name := by
      rw [superclassAfter?, Function.iterate_zero_apply, Option.some_inj, eq_comm]
    rw [Nat.exists_lt_succ_left, hfirst, List.mem_cons, ← or_assoc, or_comm (a := n ∈ visited)]
    simp only [superclassAfter?_succ hr]
  simp only [EndsAt, superclassAfter?_succ hr, hvisited]

/-- Some names are those that superclass references lead to, one after the other, up to the
first one at which following them ends. -/
structure FollowsTo (u : Universe) (visited : List String) (name? : Option String)
    (names : List String) : Prop where
  followed : ∀ i < names.length, u.superclassAfter? name? i = names[i]?
  goes_on : ∀ i < names.length, ¬ u.EndsAt visited name? i
  ends : u.EndsAt visited name? names.length

theorem FollowsTo.nil (h : u.EndsAt visited name? 0) : u.FollowsTo visited name? [] :=
  ⟨nofun, nofun, h⟩

theorem FollowsTo.cons {names : List String} (hr : u.record? name = some next)
    (hmem : name ∉ visited) (h : u.FollowsTo (name :: visited) next.superclassName? names) :
    u.FollowsTo visited (some name) (name :: names) where
  followed := by
    rintro (_ | i) hi
    · rfl
    · rw [superclassAfter?_succ hr, List.getElem?_cons_succ]
      exact h.followed i (Nat.lt_of_succ_lt_succ hi)
  goes_on := by
    rintro (_ | i) hi
    · intro hends
      obtain hnone | hvisited | ⟨i, hi, -⟩ := hends name rfl
      · rw [hr] at hnone
        cases hnone
      · exact hmem hvisited
      · exact absurd hi (Nat.not_lt_zero i)
    · rw [endsAt_succ_iff hr]
      exact h.goes_on i (Nat.lt_of_succ_lt_succ hi)
  ends := (endsAt_succ_iff hr names.length).mpr h.ends

/-- No name comes twice, and none was visited before. -/
theorem FollowsTo.nodup {names : List String} (h : u.FollowsTo visited name? names) :
    names.Nodup ∧ ∀ n ∈ names, n ∉ visited := by
  have hfresh : ∀ (j : Nat) (n : String), names[j]? = some n →
      n ∉ visited ∧ ∀ i < j, names[i]? ≠ some n := by
    intro j n hn
    have hj : j < names.length := (List.getElem?_eq_some_iff.mp hn).1
    have hgoes := h.goes_on j hj
    simp only [EndsAt, h.followed j hj, hn, Option.mem_some_iff, forall_eq', not_or,
      not_exists, not_and] at hgoes
    refine ⟨hgoes.2.1, fun i hi hn' => hgoes.2.2 i hi ?_⟩
    rw [h.followed i (hi.trans hj), hn']
  constructor
  · rw [List.nodup_iff_getElem?_ne_getElem?]
    intro i j hij hj heq
    have hn : names[j]? = some names[j] := List.getElem?_eq_getElem hj
    exact (hfresh j _ hn).2 i hij (heq.trans hn)
  · intro n hn
    obtain ⟨j, hj⟩ := List.mem_iff_getElem?.mp hn
    exact (hfresh j n hj).1

/-- A walk takes the records of the names that superclass references lead to. It ends before
the records run out. -/
theorem exists_followsTo (name? : Option String)
    (hl : ∀ n, l.lookup n = if n ∈ visited then none else u.record? n) :
    ∃ names, u.FollowsTo visited name? names ∧ names.length ≤ l.length ∧
      List.Forall₂ (u.record? · = some ·) names (superclassesFrom l name?) := by
  induction l, name? using superclassesFrom.induct generalizing visited with
  | case1 l =>
    refine ⟨[], .nil ?_, Nat.zero_le _, by simp [superclassesFrom]⟩
    rintro n ⟨⟩
  | case2 l name hnone =>
    refine ⟨[], .nil ?_, Nat.zero_le _, by simp [superclassesFrom_of_none hnone]⟩
    rintro n ⟨⟩
    have hname := hl name
    rw [hnone] at hname
    split_ifs at hname with hmem
    · exact .inr (.inl hmem)
    · exact .inl hname.symm
  | case3 l name next hnext ih =>
    have hname := hl name
    rw [hnext] at hname
    split_ifs at hname with hmem
    have hl' : ∀ n, (Universe.without name l).lookup n =
        if n ∈ name :: visited then none else u.record? n := by
      intro n
      simp only [lookup_without, hl n, List.mem_cons, ite_or]
    obtain ⟨names, hnames, hlength, hrecords⟩ := ih hl'
    refine ⟨name :: names, hnames.cons hname.symm hmem, ?_, ?_⟩
    · exact Nat.succ_le_of_lt (hlength.trans_lt (length_without_lt hnext))
    · rw [superclassesFrom_of_some hnext]
      exact .cons hname.symm hrecords

/-! ## 2. Through interfaces -/

theorem lookup_of_without (h : (Universe.without name l).lookup n = some p) :
    n ≠ name ∧ l.lookup n = some p := by
  rw [lookup_without] at h
  split_ifs at h with hname
  exact ⟨hname, h⟩

theorem lookup_without_of_ne (hname : n ≠ name) (h : l.lookup n = some p) :
    (Universe.without name l).lookup n = some p := by
  rw [lookup_without, if_neg hname, h]

/-- References to interfaces lead from some names to a name, through listed records. -/
inductive LedTo (l : List (String × ClassRecord)) (starts : List String) : String → Prop where
  | start {n : String} {p : ClassRecord} : n ∈ starts → l.lookup n = some p → LedTo l starts n
  | further {m n : String} {p q : ClassRecord} : LedTo l starts m → l.lookup m = some p →
      n ∈ p.interfaces → l.lookup n = some q → LedTo l starts n

theorem LedTo.exists_lookup (h : LedTo l starts n) : ∃ p, l.lookup n = some p := by
  cases h with
  | start _ hp => exact ⟨_, hp⟩
  | further _ _ _ hq => exact ⟨_, hq⟩

theorem LedTo.mono {starts' : List String} (h : LedTo l starts n)
    (hstarts : ∀ m p, m ∈ starts → l.lookup m = some p → LedTo l starts' m) :
    LedTo l starts' n := by
  induction h with
  | start hn hp => exact hstarts _ _ hn hp
  | further _ hp hn hq ih => exact .further ih hp hn hq

/-- A name without a record leads nowhere. -/
theorem ledTo_cons_of_none (hnone : l.lookup name = none) :
    LedTo l (name :: pending) n ↔ LedTo l pending n := by
  refine ⟨fun h => h.mono ?_, fun h => h.mono fun m p hm hp => .start (.tail _ hm) hp⟩
  intro m p hm hp
  rcases List.mem_cons.mp hm with rfl | hm
  · rw [hnone] at hp
    cases hp
  · exact .start hm hp

/-- A name with a record leads to itself and, past itself, to where the interfaces of the
record lead. -/
theorem ledTo_cons_of_some (hp : l.lookup name = some p) :
    LedTo l (name :: pending) n ↔
      n = name ∨ LedTo (Universe.without name l) (pending ++ p.interfaces) n := by
  constructor
  · intro h
    induction h with
    | @start n q hn hq =>
      by_cases hname : n = name
      · exact .inl hname
      · have hmem := (List.mem_cons.mp hn).resolve_left hname
        exact .inr (.start (List.mem_append_left _ hmem) (lookup_without_of_ne hname hq))
    | @further m n q q' _ hq hn hq' ih =>
      by_cases hname : n = name
      · exact .inl hname
      · rcases ih with rfl | hm
        · rw [hp, Option.some_inj] at hq
          subst hq
          exact .inr (.start (List.mem_append_right _ hn) (lookup_without_of_ne hname hq'))
        · obtain ⟨_, hlisted⟩ := hm.exists_lookup
          have hq := lookup_without_of_ne (lookup_of_without hlisted).1 hq
          exact .inr (.further hm hq hn (lookup_without_of_ne hname hq'))
  · have hself : LedTo l (name :: pending) name := .start List.mem_cons_self hp
    rintro (rfl | h)
    · exact hself
    · induction h with
      | start hn hq =>
        rcases List.mem_append.mp hn with hn | hn
        · exact .start (List.mem_cons_of_mem _ hn) (lookup_of_without hq).2
        · exact .further hself hp hn (lookup_of_without hq).2
      | further _ hq hn hq' ih =>
        exact .further ih (lookup_of_without hq).2 hn (lookup_of_without hq').2

/-- The walk through interfaces takes the records of all names that it is led to, each once. -/
theorem exists_names_interfacesFrom (l : List (String × ClassRecord)) (pending : List String) :
    ∃ names : List String, names.Nodup ∧
      List.Forall₂ (fun n p => l.lookup n = some p) names (interfacesFrom l pending) ∧
        ∀ n, n ∈ names ↔ LedTo l pending n := by
  induction l, pending using interfacesFrom.induct with
  | case1 l =>
    refine ⟨[], .nil, by simp [interfacesFrom], fun n => ⟨fun h => absurd h List.not_mem_nil, ?_⟩⟩
    intro h
    induction h with
    | start hn => exact hn
    | further _ _ _ _ ih => cases ih
  | case2 l name pending hnone ih =>
    simp only [interfacesFrom_of_none hnone, ledTo_cons_of_none hnone]
    exact ih
  | case3 l name pending p hp ih =>
    obtain ⟨names, hnodup, hrecords, hmem⟩ := ih
    have hout : name ∉ names := by
      rw [hmem]
      intro h
      obtain ⟨q, hq⟩ := h.exists_lookup
      rw [lookup_without, if_pos rfl] at hq
      cases hq
    refine ⟨name :: names, List.nodup_cons.mpr ⟨hout, hnodup⟩, ?_, fun n => ?_⟩
    · rw [interfacesFrom_of_some hp]
      exact .cons hp (hrecords.imp fun _ _ h => (lookup_of_without h).2)
    · rw [List.mem_cons, hmem, ledTo_cons_of_some hp]

/-- A way through the record that a walk is for could as well start there, so nothing is lost
where the walk goes without it. -/
theorem ledTo_without_iff (hr : ∀ p, u.record? r.name = some p → p = r)
    (hstarts : ∀ m ∈ r.interfaces, m ∈ starts) :
    LedTo (Universe.without r.name u.records) starts n ↔
      n ≠ r.name ∧ LedTo u.records starts n := by
  constructor
  · intro h
    induction h with
    | start hn hp =>
      obtain ⟨hname, hp⟩ := lookup_of_without hp
      exact ⟨hname, .start hn hp⟩
    | further _ hp hn hq ih =>
      obtain ⟨hname, hq⟩ := lookup_of_without hq
      exact ⟨hname, .further ih.2 (lookup_of_without hp).2 hn hq⟩
  · rintro ⟨hname, h⟩
    induction h with
    | start hn hp => exact .start hn (lookup_without_of_ne hname hp)
    | @further m n p q _ hp hn hq ih =>
      by_cases hm : m = r.name
      · have hpr : p = r := hr p (hm ▸ hp)
        exact .start (hstarts n (hpr ▸ hn)) (lookup_without_of_ne hname hq)
      · exact .further (ih hm) (lookup_without_of_ne hm hp) hn (lookup_without_of_ne hname hq)

theorem ledTo_flatMap_iff {rs : List ClassRecord} :
    LedTo l (rs.flatMap (·.interfaces)) n ↔ ∃ c ∈ rs, LedTo l c.interfaces n := by
  constructor
  · intro h
    induction h with
    | start hn hp =>
      obtain ⟨c, hc, hn⟩ := List.mem_flatMap.mp hn
      exact ⟨c, hc, .start hn hp⟩
    | further _ hp hn hq ih =>
      obtain ⟨c, hc, hm⟩ := ih
      exact ⟨c, hc, .further hm hp hn hq⟩
  · rintro ⟨c, hc, h⟩
    exact h.mono fun m p hm hp => .start (List.mem_flatMap.mpr ⟨c, hc, hm⟩) hp

/-! ## 3. Both walks -/

/-- Every record stands under its own name. -/
def KeyedByName (u : Universe) : Prop :=
  ∀ n p, u.record? n = some p → p.name = n

theorem KeyedByName.map_name_eq {names : List String} {rs : List ClassRecord}
    (hu : u.KeyedByName) (h : List.Forall₂ (u.record? · = some ·) names rs) :
    rs.map (·.name) = names := by
  induction h with
  | nil => rfl
  | cons hp _ ih => rw [List.map_cons, ih, hu _ _ hp]

/-- Records under their own names are different if the names are. -/
theorem KeyedByName.nodup_cons {names : List String} {rs : List ClassRecord}
    (hu : u.KeyedByName) (h : List.Forall₂ (u.record? · = some ·) names rs)
    (hnames : (r.name :: names).Nodup) : (r :: rs).Nodup := by
  refine List.Nodup.of_map (·.name) ?_
  rwa [List.map_cons, hu.map_name_eq h]

theorem mem_roots_self (u : Universe) (r : ClassRecord) : r ∈ u.roots r := by
  rw [roots]
  split_ifs
  · exact List.mem_singleton_self r
  · exact List.mem_cons_self

/-- The superclasses of a record are those of the superclass references from it on, up to the
first one that is missing (an empty name counts as none) or names no record, the record itself
or a class that was met before. The interfaces of a record that its own name leads to, if to
anything, are those of all other names that interface references lead to from it or, unless it
is an interface, from it and its superclasses, each name once. Where all records stand under
their own names, no walk takes a record twice, nor the one it is for. -/
theorem walks_exact (u : Universe) (r : ClassRecord) :
    (∃ names, u.FollowsTo [r.name] r.superclassName? names ∧ names.length ≤ u.records.length ∧
        List.Forall₂ (u.record? · = some ·) names (u.superclasses r)) ∧
      ((∀ p, u.record? r.name = some p → p = r) →
        ∃ names : List String, names.Nodup ∧
          List.Forall₂ (u.record? · = some ·) names (u.interfaces r) ∧
            ∀ n, n ∈ names ↔ n ≠ r.name ∧ ∃ c ∈ u.roots r, LedTo u.records c.interfaces n) ∧
      (u.KeyedByName → (r :: u.superclasses r).Nodup ∧ (r :: u.interfaces r).Nodup) := by
  have hself : ∀ n, (Universe.without r.name u.records).lookup n =
      if n ∈ [r.name] then none else u.record? n := by
    intro n
    simp only [lookup_without, List.mem_singleton]
    rfl
  obtain ⟨supers, hsupers, hlength, hsuperclasses⟩ := exists_followsTo r.superclassName? hself
  obtain ⟨names, hnodup, hrecords, hmem⟩ := exists_names_interfacesFrom
    (Universe.without r.name u.records) ((u.roots r).flatMap (·.interfaces))
  rw [← interfaces_eq] at hrecords
  have hinterfaces : List.Forall₂ (u.record? · = some ·) names (u.interfaces r) :=
    hrecords.imp fun _ _ h => (lookup_of_without h).2
  refine ⟨⟨supers, hsupers, ?_, hsuperclasses⟩, fun hr => ?_, fun hu => ⟨?_, ?_⟩⟩
  · exact hlength.trans (List.length_filter_le _ _)
  · refine ⟨names, hnodup, hinterfaces, fun n => ?_⟩
    have hstarts : ∀ m ∈ r.interfaces, m ∈ (u.roots r).flatMap (·.interfaces) :=
      fun m hm => List.mem_flatMap.mpr ⟨r, mem_roots_self u r, hm⟩
    rw [hmem, ledTo_without_iff hr hstarts, ledTo_flatMap_iff]
  · obtain ⟨hdistinct, hfresh⟩ := hsupers.nodup
    have hout : r.name ∉ supers := fun h => hfresh r.name h List.mem_cons_self
    exact hu.nodup_cons hsuperclasses (List.nodup_cons.mpr ⟨hout, hdistinct⟩)
  · have hout : r.name ∉ names := by
      rw [hmem]
      intro h
      obtain ⟨p, hp⟩ := h.exists_lookup
      exact (lookup_of_without hp).1 rfl
    exact hu.nodup_cons hinterfaces (List.nodup_cons.mpr ⟨hout, hnodup⟩)

/-! ## 4. A hierarchy of circles

Two classes extend each other. The interfaces of the first one lead to each other, to
themselves and back to the class, and to a name without a record. -/

namespace WalkSample

/-- A record that matters for nothing but what it refers to. -/
def referring (name : String) (kind : ClassKind) (superclass : Option String)
    (interfaces : List String) : ClassRecord :=
  { ClassRecord.placeholder name kind with superclass := superclass, interfaces := interfaces }

def leaf : ClassRecord := referring "p.A" .ordinary (some "p.B") ["p.I", "p.J", "p.I"]

def base : ClassRecord := referring "p.B" .ordinary (some "p.A") ["p.J"]

def left : ClassRecord := referring "p.I" .interface none ["p.K"]

def right : ClassRecord := referring "p.J" .interface none ["p.K", "p.A", "p.Gone"]

def top : ClassRecord := referring "p.K" .interface none ["p.I", "p.K"]

/-- The hierarchy. -/
def circles : Universe where
  records := [leaf, base, left, right, top].map fun r => (r.name, r)
  candidates := ["p.A", "p.B"]
  recorded := by decide

end WalkSample

open WalkSample in
/-- The walks from a class on two circles end, and the interface at the far end is found once. -/
theorem walks_exact_on_circles :
    circles.record? leaf.name = some leaf ∧ circles.KeyedByName ∧
      (∃ names, circles.FollowsTo ["p.A"] (some "p.B") names ∧ names.length ≤ 5 ∧
        List.Forall₂ (circles.record? · = some ·) names (circles.superclasses leaf)) ∧
      (∃ names : List String, names.Nodup ∧
        List.Forall₂ (circles.record? · = some ·) names (circles.interfaces leaf) ∧
          "p.K" ∈ names ∧ "p.A" ∉ names ∧ "p.Gone" ∉ names) ∧
      (leaf :: circles.superclasses leaf).Nodup ∧ (leaf :: circles.interfaces leaf).Nodup := by
  have hkeyed : circles.KeyedByName := fun _ _ => name_of_lookup_map
  obtain ⟨hsupers, hinterfaces, hnodup⟩ := walks_exact circles leaf
  obtain ⟨names, hdistinct, hrecords, hmem⟩ :=
    hinterfaces fun p hp => (Option.some_inj.mp hp).symm
  refine ⟨rfl, hkeyed, hsupers, ⟨names, hdistinct, hrecords, ?_, ?_, ?_⟩, hnodup hkeyed⟩
  · have hleft : LedTo circles.records leaf.interfaces "p.I" := .start (by decide) rfl
    have htop : LedTo circles.records leaf.interfaces "p.K" :=
      .further hleft rfl (by decide) rfl
    exact (hmem "p.K").mpr ⟨by decide, leaf, mem_roots_self circles leaf, htop⟩
  · exact fun h => ((hmem "p.A").mp h).1 rfl
  · intro h
    obtain ⟨-, c, -, hgone⟩ := (hmem "p.Gone").mp h
    obtain ⟨p, hp⟩ := hgone.exists_lookup
    cases hp

end Universe

end ApiSurface
