/-
ApiSurface.Proofs.Universe.Agreement — two universes on what a class reaches.

Two tables agree from a name on if every name that it reaches has the same class
file in both, or none in both. Then it reaches the same names, and the universes
of both have the same records for these, apart from the scope in which a class was
found (`ClassRecord.unscoped`). That the set of reached names is closed under
references carries the walks over the hierarchy along: a walk that starts inside
stays inside, and finds the same records in both universes.
-/
import ApiSurface.Proofs.Universe.Enumeration

namespace ApiSurface

/-! ## 1. Walks through agreeing records -/

/-- What a record says of its class, without the scope in which the class was found. -/
def ClassRecord.unscoped (r : ClassRecord) : ClassRecord := { r with isExternal := false }

namespace Universe

/-- The records of two lists agree on some names. -/
def AgreeOn (names : String → Prop) (l₁ l₂ : List (String × ClassRecord)) : Prop :=
  ∀ n, names n → (l₁.lookup n).map (·.unscoped) = (l₂.lookup n).map (·.unscoped)

/-- The records of some names refer to nothing else. -/
def ClosedOn (names : String → Prop) (l : List (String × ClassRecord)) : Prop :=
  ∀ n r, names n → l.lookup n = some r → ∀ q ∈ r.references, names q.1

theorem lookup_without {name n : String} {l : List (String × ClassRecord)} :
    (without name l).lookup n = if n = name then none else l.lookup n := by
  induction l with
  | nil => simp [without]
  | cons entry rest ih =>
    obtain ⟨key, r⟩ := entry
    rw [without] at ih
    by_cases hk : key = name
    · subst hk
      by_cases hn : n = key
      · rw [if_pos hn] at ih ⊢
        simpa [without] using ih
      · have hb : (n == key) = false := by simp [hn]
        simp [without, ih, hn, List.lookup_cons, hb]
    · by_cases hn : n = key
      · subst hn
        simp [without, hk]
      · have hb : (n == key) = false := by simp [hn]
        simp [without, hk, List.lookup_cons, hb, ih]

variable {names : String → Prop} {l₁ l₂ : List (String × ClassRecord)}

theorem AgreeOn.without (h : AgreeOn names l₁ l₂) (name : String) :
    AgreeOn names (without name l₁) (without name l₂) := by
  intro n hn
  rw [lookup_without, lookup_without]
  split_ifs
  · rfl
  · exact h n hn

theorem ClosedOn.without (h : ClosedOn names l₁) (name : String) :
    ClosedOn names (without name l₁) := by
  intro n r hn hr
  rw [lookup_without] at hr
  split_ifs at hr
  exact h n r hn hr

/-- Agreeing lists have a name or miss it together. -/
theorem AgreeOn.lookup_eq_some (h : AgreeOn names l₁ l₂) {n : String} (hn : names n)
    {r : ClassRecord} (hr : l₁.lookup n = some r) :
    ∃ r', l₂.lookup n = some r' ∧ r.unscoped = r'.unscoped := by
  have h' := h n hn
  rw [hr, Option.map_some, eq_comm, Option.map_eq_some_iff] at h'
  obtain ⟨r', hr', he⟩ := h'
  exact ⟨r', hr', he.symm⟩

theorem AgreeOn.lookup_eq_none (h : AgreeOn names l₁ l₂) {n : String} (hn : names n)
    (hr : l₁.lookup n = none) : l₂.lookup n = none := by
  have h' := h n hn
  rwa [hr, Option.map_none, eq_comm, Option.map_eq_none_iff] at h'

theorem superclassesFrom_of_none {l : List (String × ClassRecord)} {name : String}
    (h : l.lookup name = none) : superclassesFrom l (some name) = [] := by
  rw [superclassesFrom]
  split
  · rfl
  · next hr => rw [h] at hr; cases hr

theorem superclassesFrom_of_some {l : List (String × ClassRecord)} {name : String}
    {r : ClassRecord} (h : l.lookup name = some r) :
    superclassesFrom l (some name) =
      r :: superclassesFrom (Universe.without name l) r.superclassName? := by
  rw [superclassesFrom]
  split
  · next hr => rw [h] at hr; cases hr
  · next hr => rw [h] at hr; cases hr; rfl

theorem interfacesFrom_of_none {l : List (String × ClassRecord)} {name : String}
    {pending : List String} (h : l.lookup name = none) :
    interfacesFrom l (name :: pending) = interfacesFrom l pending := by
  rw [interfacesFrom]
  split
  · rfl
  · next hr => rw [h] at hr; cases hr

theorem interfacesFrom_of_some {l : List (String × ClassRecord)} {name : String}
    {pending : List String} {r : ClassRecord} (h : l.lookup name = some r) :
    interfacesFrom l (name :: pending) =
      r :: interfacesFrom (Universe.without name l) (pending ++ r.interfaces) := by
  rw [interfacesFrom]
  split
  · next hr => rw [h] at hr; cases hr
  · next hr => rw [h] at hr; cases hr; rfl

/-- Walks up the superclasses meet the same records. -/
theorem superclassesFrom_agree {name? : Option String} (h : AgreeOn names l₁ l₂)
    (hclosed : ClosedOn names l₁) (hname : ∀ n, name? = some n → names n) :
    (superclassesFrom l₁ name?).map (·.unscoped) = (superclassesFrom l₂ name?).map (·.unscoped) := by
  induction l₁, name? using superclassesFrom.induct generalizing l₂ with
  | case1 l₁ => simp [superclassesFrom]
  | case2 l₁ name hnone =>
    rw [superclassesFrom_of_none hnone,
      superclassesFrom_of_none (h.lookup_eq_none (hname name rfl) hnone)]
  | case3 l₁ name r hr ih =>
    obtain ⟨r₂, hr₂, heq⟩ := h.lookup_eq_some (hname name rfl) hr
    have hsuper : r₂.superclassName? = r.superclassName? :=
      (congrArg ClassRecord.superclassName? heq).symm
    have hnext := ih (h.without name) (hclosed.without name) fun n hn =>
      hclosed name r (hname name rfl) hr (n, .ordinary) (by simp [ClassRecord.references, hn])
    rw [superclassesFrom_of_some hr, superclassesFrom_of_some hr₂, List.map_cons, List.map_cons,
      heq, hnext, hsuper]

/-- Walks through interfaces meet the same records. -/
theorem interfacesFrom_agree {pending : List String} (h : AgreeOn names l₁ l₂)
    (hclosed : ClosedOn names l₁) (hpending : ∀ n ∈ pending, names n) :
    (interfacesFrom l₁ pending).map (·.unscoped) =
      (interfacesFrom l₂ pending).map (·.unscoped) := by
  induction l₁, pending using interfacesFrom.induct generalizing l₂ with
  | case1 l₁ => simp [interfacesFrom]
  | case2 l₁ name rest hnone ih =>
    have hname := hpending name List.mem_cons_self
    rw [interfacesFrom_of_none hnone, interfacesFrom_of_none (h.lookup_eq_none hname hnone)]
    exact ih h hclosed fun n hn => hpending n (List.mem_cons_of_mem _ hn)
  | case3 l₁ name rest r hr ih =>
    have hname := hpending name List.mem_cons_self
    obtain ⟨r₂, hr₂, heq⟩ := h.lookup_eq_some hname hr
    have hinterfaces : r₂.interfaces = r.interfaces := (congrArg ClassRecord.interfaces heq).symm
    have hnext := ih (h.without name) (hclosed.without name) fun n hn => by
      rcases List.mem_append.mp hn with hn | hn
      · exact hpending n (List.mem_cons_of_mem _ hn)
      · exact hclosed name r hname hr (n, .interface) (by simp [ClassRecord.references, hn])
    rw [interfacesFrom_of_some hr, interfacesFrom_of_some hr₂, List.map_cons, List.map_cons, heq,
      hnext, hinterfaces]

/-- The superclasses that are met refer to names of the closed set. -/
theorem references_of_mem_superclassesFrom {name? : Option String} (hclosed : ClosedOn names l₁)
    (hname : ∀ n, name? = some n → names n) {r : ClassRecord}
    (hr : r ∈ superclassesFrom l₁ name?) : ∀ q ∈ r.references, names q.1 := by
  induction l₁, name? using superclassesFrom.induct with
  | case1 l₁ => simp [superclassesFrom] at hr
  | case2 l₁ name hnone => simp [superclassesFrom_of_none hnone] at hr
  | case3 l₁ name r' hr' ih =>
    rw [superclassesFrom_of_some hr'] at hr
    have hrefs := hclosed name r' (hname name rfl) hr'
    rcases List.mem_cons.mp hr with rfl | hr
    · exact hrefs
    · exact ih (hclosed.without name)
        (fun n hn => hrefs (n, .ordinary) (by simp [ClassRecord.references, hn])) hr

/-- The interfaces that are met refer to names of the closed set. -/
theorem references_of_mem_interfacesFrom {pending : List String} (hclosed : ClosedOn names l₁)
    (hpending : ∀ n ∈ pending, names n) {r : ClassRecord}
    (hr : r ∈ interfacesFrom l₁ pending) : ∀ q ∈ r.references, names q.1 := by
  induction l₁, pending using interfacesFrom.induct with
  | case1 l₁ => simp [interfacesFrom] at hr
  | case2 l₁ name rest hnone ih =>
    rw [interfacesFrom_of_none hnone] at hr
    exact ih hclosed (fun n hn => hpending n (List.mem_cons_of_mem _ hn)) hr
  | case3 l₁ name rest r' hr' ih =>
    rw [interfacesFrom_of_some hr'] at hr
    have hrefs := hclosed name r' (hpending name List.mem_cons_self) hr'
    rcases List.mem_cons.mp hr with rfl | hr
    · exact hrefs
    · refine ih (hclosed.without name) (fun n hn => ?_) hr
      rcases List.mem_append.mp hn with hn | hn
      · exact hpending n (List.mem_cons_of_mem _ hn)
      · exact hrefs (n, .interface) (by simp [ClassRecord.references, hn])

end Universe

/-! ## 2. Tables that agree from a name on -/

namespace ClassTable

variable {t₁ t₂ : ClassTable} {start : String}

/-- Every name that can be reached has the same class file in both tables, or none. -/
def AgreeFrom (t₁ t₂ : ClassTable) (start : String) : Prop :=
  ∀ n, t₁.Reaches start n → t₁.file? n = t₂.file? n

/-- What can be reached in the first table can be reached in the second one. -/
theorem AgreeFrom.reaches (h : t₁.AgreeFrom t₂ start) {n : String} (hn : t₁.Reaches start n) :
    t₂.Reaches start n := by
  induction hn with
  | refl => exact .refl
  | step ha hr ih =>
    obtain ⟨c, hc, hto⟩ := hr
    exact .step ih ⟨c, by rw [← h _ ha, hc], hto⟩

end ClassTable

/-! ## 3. Universes of tables that agree -/

namespace Universe.Traces

variable {t₁ t₂ : ClassTable} {x₁ x₂ : Exclusion} {u₁ u₂ : Universe} {start : String}

/-- The record of a name in scope refers to what its class refers to. -/
theorem refers_of_record? {t : ClassTable} {x : Exclusion} {u : Universe} (ht : t.Coherent)
    (h : Traces t x [] [] u) {name : String} {r : ClassRecord} (hr : u.record? name = some r)
    {q : String × ClassKind} (hq : q ∈ r.references) : t.Refers name q.1 q.2 := by
  rcases h.record?_cases ht hr with ⟨_, c, hc, rfl⟩ | ⟨_, _, -, -, -, rfl⟩
  · exact ⟨c, hc, ClassRecord.mem_references_ofClassFile.mp hq⟩
  · simp at hq

/-- The records of what can be reached refer to nothing else. -/
theorem closedOn_reaches {t : ClassTable} {x : Exclusion} {u : Universe} (ht : t.Coherent)
    (h : Traces t x [] [] u) : ClosedOn (t.Reaches start) u.records :=
  fun _ _ hn hr _ hq => .step hn (h.refers_of_record? ht hr hq)

/-- Two universes have the same records for what an admitted class reaches. -/
theorem agreeOn_reaches (ht₁ : t₁.Coherent) (ht₂ : t₂.Coherent) (h₁ : Traces t₁ x₁ [] [] u₁)
    (h₂ : Traces t₂ x₂ [] [] u₂) (hroles₁ : t₁.HasSingleRoles x₁) (hroles₂ : t₂.HasSingleRoles x₂)
    (hstart₁ : t₁.Admits x₁ start) (hstart₂ : t₂.Admits x₂ start)
    (hagree : t₁.AgreeFrom t₂ start) : AgreeOn (t₁.Reaches start) u₁.records u₂.records := by
  intro n hn
  have hscope₁ := hstart₁.inScope.of_reaches hn
  have hscope₂ := hstart₂.inScope.of_reaches (hagree.reaches hn)
  obtain ⟨r₁, hr₁⟩ := knows_iff_exists.mp ((h₁.knows_iff_inScope ht₁).mpr hscope₁)
  obtain ⟨r₂, hr₂⟩ := knows_iff_exists.mp ((h₂.knows_iff_inScope ht₂).mpr hscope₂)
  have heq : r₁.unscoped = r₂.unscoped := by
    rcases h₁.record?_cases ht₁ hr₁ with ⟨e₁, c, hc, rfl⟩ | ⟨_, _, hnone₁, -, -, -⟩
    · have hc₂ : t₂.file? n = some c := by rw [← hagree n hn, hc]
      obtain ⟨e₂, hr₂'⟩ := h₂.record?_of_file? ht₂ ((h₂.knows_iff_inScope ht₂).mpr hscope₂) hc₂
      rw [hr₂] at hr₂'
      cases hr₂'
      rfl
    · have hfile₁ : t₁.file? n = none := by simp [ClassTable.file?, hnone₁]
      rcases h₂.record?_cases ht₂ hr₂ with ⟨_, c, hc, -⟩ | ⟨_, _, hnone₂, -, -, -⟩
      · rw [← hagree n hn, hfile₁] at hc
        cases hc
      · -- A name without a class is not the admitted class itself: something refers to it.
        cases hn with
        | refl =>
          obtain ⟨_, hfile⟩ := ht₁.lookUp_own hstart₁.1 hnone₁
          cases hfile
        | @step a _ role ha hr =>
          obtain ⟨c, hc, hto⟩ := hr
          have hr' : t₂.Refers a n role := ⟨c, by rw [← hagree a ha, hc], hto⟩
          have hp₁ := h₁.record?_placeholder ht₁ hroles₁ hnone₁
            (hstart₁.inScope.of_reaches ha) ⟨c, hc, hto⟩
          have hp₂ := h₂.record?_placeholder ht₂ hroles₂ hnone₂
            (hstart₂.inScope.of_reaches (hagree.reaches ha)) hr'
          rw [hr₁] at hp₁
          rw [hr₂] at hp₂
          cases hp₁
          cases hp₂
          rfl
  unfold record? at hr₁ hr₂
  rw [hr₁, hr₂, Option.map_some, Option.map_some, heq]

end Universe.Traces

end ApiSurface
