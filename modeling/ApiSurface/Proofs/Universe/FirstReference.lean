/-
ApiSurface.Proofs.Universe.FirstReference — the kind of a class that nothing defines.

References are followed in the order in which records make them, and the first one to
a name that nothing defines decides on the kind of its placeholder. `FollowsInOrder`
is the invariant of both loops: all references made so far are the followed ones and
after them the pending ones, every followed name has a record, and every placeholder
has the role of the first followed reference to its name. In a complete universe
nothing is pending, so the placeholder of a name has the role in which the name is
referred to first (`record?_of_undefined`).

No assumption on roles is needed here, and later references make no difference.
-/
import ApiSurface.Proofs.Universe.Enumeration

namespace ApiSurface

namespace Universe

/-! ## 1. References in order -/

/-- The references of all records, in the order in which they are followed. -/
def references (u : Universe) : List (String × ClassKind) :=
  u.records.flatMap fun entry => entry.2.references

/-- The role in which a name is referred to first. -/
def firstRole? (u : Universe) (name : String) : Option ClassKind := u.references.lookup name

theorem references_add {u : Universe} {name : String} {r : ClassRecord} {isCandidate : Bool} :
    (u.add name r isCandidate).references = u.references ++ r.references := by
  simp [references, add]

/-! ## 2. The invariant -/

/-- The references of a universe on its way to being complete: those that were followed,
and then those that are pending. -/
structure FollowsInOrder (t : ClassTable) (followed pending : List (String × ClassKind))
    (u : Universe) : Prop where
  references : u.references = followed ++ pending
  known : ∀ q ∈ followed, u.knows q.1 = true
  placeholder : ∀ e ∈ u.records, t.lookUp e.1 = .ok none →
    ∃ role, followed.lookup e.1 = some role ∧ e.2 = .placeholder e.1 role

namespace FollowsInOrder

variable {t : ClassTable} {followed pending : List (String × ClassKind)} {u : Universe}

theorem empty : FollowsInOrder t [] [] Universe.empty := ⟨rfl, nofun, nofun⟩

/-- A reference to a name with a record is followed by passing it. -/
theorem drop {q : String × ClassKind} (h : FollowsInOrder t followed (q :: pending) u)
    (hq : u.knows q.1 = true) : FollowsInOrder t (followed ++ [q]) pending u where
  references := by rw [h.references, List.append_assoc, List.singleton_append]
  known q' hq' := by
    rcases List.mem_append.mp hq' with hq' | hq'
    · exact h.known q' hq'
    · rwa [List.mem_singleton.mp hq']
  placeholder e he hnone := by
    obtain ⟨role, hrole, heq⟩ := h.placeholder e he hnone
    exact ⟨role, by rw [List.lookup_append, hrole, Option.some_or], heq⟩

/-- A record that is loaded for a reference has the role of the reference if nothing
defines its name. -/
theorem add (ht : t.Coherent) {name : String} {role : ClassKind} {r : ClassRecord}
    {isCandidate : Bool} (h : FollowsInOrder t followed ((name, role) :: pending) u)
    (hnew : ¬ u.knows name = true) (hr : t.record name role = .ok r) :
    FollowsInOrder t (followed ++ [(name, role)]) (pending ++ r.references)
      (u.add name r isCandidate) where
  references := by
    rw [references_add, h.references]
    simp
  known q hq := by
    rw [knows_add]
    rcases List.mem_append.mp hq with hq | hq
    · exact .inl (h.known q hq)
    · exact .inr (by rw [List.mem_singleton.mp hq])
  placeholder e he hnone := by
    rcases mem_records_add.mp he with he | rfl
    · obtain ⟨role', hrole, heq⟩ := h.placeholder e he hnone
      exact ⟨role', by rw [List.lookup_append, hrole, Option.some_or], heq⟩
    · -- A followed name has a record, so this is the first reference to the name.
      have hfirst : followed.lookup name = none := by
        rw [lookup_eq_none_iff_not_mem]
        intro hm
        obtain ⟨q, hq, rfl⟩ := List.mem_map.mp hm
        exact hnew (h.known q hq)
      refine ⟨role, by simp [List.lookup_append, hfirst], ?_⟩
      rcases ht.record_eq_ok hr with ⟨loaded, hl, -⟩ | ⟨-, heq⟩
      · rw [hnone] at hl
        cases hl
      · exact heq

/-- A class of the target can be added for no reference at all: it is defined. -/
theorem addOwn (ht : t.Coherent) {name : String} {r : ClassRecord}
    (h : FollowsInOrder t [] pending u) (hown : name ∈ t.own) :
    FollowsInOrder t [] (pending ++ r.references) (u.add name r true) where
  references := by rw [references_add, h.references, List.nil_append, List.nil_append]
  known := nofun
  placeholder e he hnone := by
    rcases mem_records_add.mp he with he | rfl
    · exact h.placeholder e he hnone
    · obtain ⟨file, hfile⟩ := ht.lookUp_own hown hnone
      cases hfile

end FollowsInOrder

/-! ## 3. The loops -/

variable {t : ClassTable} {x : Exclusion}

theorem close_followsInOrder (ht : t.Coherent) {unread : List String}
    {followed pending : List (String × ClassKind)} {u u' : Universe}
    (hunread : ∀ n ∈ t.defined, ¬ u.knows n = true → n ∈ unread)
    (h : FollowsInOrder t followed pending u) (hc : close t unread pending u = .ok u') :
    FollowsInOrder t u'.references [] u' := by
  have hclosed : ∃ followed, FollowsInOrder t followed [] u' := by
    refine close_induction (P := fun pending u => ∃ followed, FollowsInOrder t followed pending u)
      ?_ ?_ hunread ⟨followed, h⟩ hc
    · rintro q pending u ⟨followed, h⟩ hk
      exact ⟨followed ++ [q], h.drop hk⟩
    · rintro name kind pending u r ⟨followed, h⟩ hk hr
      exact ⟨followed ++ [(name, kind)], h.add ht hk hr⟩
  obtain ⟨followed, h⟩ := hclosed
  rwa [h.references, List.append_nil]

theorem addOwn_followsInOrder (ht : t.Coherent) {ahead : List String} {u : Universe}
    {references : List (String × ClassKind)} {result : Universe × List (String × ClassKind)}
    (hown : ∀ n ∈ ahead, n ∈ t.own) (h : FollowsInOrder t [] references u)
    (hc : (addOwn t x ahead u references).outcome = .ok result) :
    FollowsInOrder t [] result.2 result.1 := by
  induction ahead, u, references using addOwn.induct x with
  | case1 u references =>
    rw [addOwn, Report.outcome_pure] at hc
    cases hc
    exact h
  | case2 name rest u references hx ih =>
    rw [addOwn, if_pos hx] at hc
    obtain ⟨_, -, hc⟩ := Report.outcome_bind_eq_ok.mp hc
    exact ih (fun n hn => hown n (List.mem_cons_of_mem _ hn)) h hc
  | case3 name rest u references hx ih =>
    rw [addOwn, if_neg hx] at hc
    obtain ⟨r, -, hc⟩ := Report.outcome_bind_eq_ok.mp hc
    exact ih r (fun n hn => hown n (List.mem_cons_of_mem _ hn))
      (h.addOwn ht (hown name List.mem_cons_self)) hc

/-- Enumeration follows all references, each in its turn. -/
theorem enumerate_followsInOrder (ht : t.Coherent) {target : Path} {u : Universe}
    (hu : (enumerate t x target).outcome = .ok u) : FollowsInOrder t u.references [] u := by
  obtain ⟨⟨admitted, references⟩, ha, hu⟩ := Report.outcome_bind_eq_ok.mp hu
  obtain ⟨u', hc, hu⟩ := Report.outcome_bind_eq_ok.mp hu
  obtain ⟨_, -, hu⟩ := Report.outcome_bind_eq_ok.mp hu
  cases hu
  refine close_followsInOrder ht ?_ (addOwn_followsInOrder ht (fun _ hn => hn) .empty ha) hc
  intro n hn hk
  simpa [hn] using hk

/-! ## 4. Complete universes -/

/-- The placeholder of a name has the role in which the name is referred to first. -/
theorem FollowsInOrder.record?_of_undefined {u : Universe} (htr : Traces t x [] [] u)
    (h : FollowsInOrder t u.references [] u) {name : String} (hnone : t.lookUp name = .ok none)
    {r : ClassRecord} :
    u.record? name = some r ↔ ∃ role, u.firstRole? name = some role ∧ r = .placeholder name role := by
  constructor
  · intro hr
    exact h.placeholder _ (htr.record?_eq_some_iff.mp hr) hnone
  · rintro ⟨role, hrole, rfl⟩
    obtain ⟨l₁, l₂, hl, -⟩ := List.lookup_eq_some_iff.mp hrole
    obtain ⟨r, hr⟩ : ∃ r, u.record? name = some r :=
      knows_iff_exists.mp (h.known (name, role) (by simp [hl]))
    obtain ⟨role', hrole', rfl⟩ : ∃ role', u.firstRole? name = some role' ∧ r = .placeholder name role' :=
      h.placeholder _ (htr.record?_eq_some_iff.mp hr) hnone
    rw [hrole, Option.some_inj] at hrole'
    rw [hr, hrole']

end Universe

end ApiSurface
