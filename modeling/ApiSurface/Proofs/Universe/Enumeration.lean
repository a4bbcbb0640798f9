/-
ApiSurface.Proofs.Universe.Enumeration — enumeration finds what references reach.

`Traces` is the invariant of both loops: every record was loaded for a reason, a
reason being admission or a reference from another record; every reference leads
to a record or is pending; every pending reference is one that a record makes.
Each step of a loop is an `add`, a `drop` or a `pass`, and each of these keeps the
invariant. When nothing is pending, the names with records are exactly the names
in scope (`knows_iff_inScope`), and the candidates are the admitted ones together
with the external ones.

A name that nothing defines gets a placeholder, whose kind is the role of some
reference to it. Where all references to the name agree on the role, the
placeholder does not depend on the order of the walk (`record?_placeholder`).
-/
import ApiSurface.Proofs.Universe.Table

namespace ApiSurface

namespace Universe

/-! ## 1. Records by name -/

theorem knows_iff_mem {u : Universe} {name : String} :
    u.knows name = true ↔ name ∈ u.records.map (·.1) := lookup_isSome_iff_mem

theorem knows_iff_exists {u : Universe} {name : String} :
    u.knows name = true ↔ ∃ r, u.record? name = some r := Option.isSome_iff_exists

section

variable {u : Universe} {name : String} {r : ClassRecord} {isCandidate : Bool}

theorem knows_add {other : String} :
    (u.add name r isCandidate).knows other = true ↔ u.knows other = true ∨ other = name := by
  simp [knows_iff_mem, add]

theorem mem_records_add {e : String × ClassRecord} :
    e ∈ (u.add name r isCandidate).records ↔ e ∈ u.records ∨ e = (name, r) := by
  simp [add]

theorem mem_candidates_add {other : String} :
    other ∈ (u.add name r isCandidate).candidates ↔
      other ∈ u.candidates ∨ other = name ∧ isCandidate = true := by
  cases isCandidate <;> simp [add]

/-- A name without a record keeps the names of records distinct. -/
theorem nodup_records_add (h : (u.records.map (·.1)).Nodup) (hnew : ¬ u.knows name = true) :
    ((u.add name r isCandidate).records.map (·.1)).Nodup := by
  rw [add, List.map_append, List.map_singleton, List.nodup_append_comm, List.singleton_append,
    List.nodup_cons]
  exact ⟨mt knows_iff_mem.mpr hnew, h⟩

theorem nodup_candidates_add (h : u.candidates.Nodup) (hnew : name ∉ u.candidates) :
    (u.add name r isCandidate).candidates.Nodup := by
  cases isCandidate with
  | false => exact h
  | true =>
    have hcandidates : (u.add name r true).candidates = u.candidates ++ [name] := rfl
    rw [hcandidates, List.nodup_append_comm, List.singleton_append, List.nodup_cons]
    exact ⟨hnew, h⟩

end

/-! ## 2. The invariant -/

/-- A universe on its way to being complete: `ahead` are the own names that were not
looked at, `pending` the references that were not followed. -/
structure Traces (t : ClassTable) (x : Exclusion) (ahead : List String)
    (pending : List (String × ClassKind)) (u : Universe) : Prop where
  nodup : (u.records.map (·.1)).Nodup
  awaited : ∀ name, t.Admits x name → u.knows name = true ∨ name ∈ ahead
  loaded : ∀ e ∈ u.records, ∃ role, t.record e.1 role = .ok e.2 ∧
    (t.Admits x e.1 ∨ ∃ e' ∈ u.records, (e.1, role) ∈ e'.2.references)
  inScope : ∀ e ∈ u.records, t.InScope x e.1
  followed : ∀ e ∈ u.records, ∀ q ∈ e.2.references, u.knows q.1 = true ∨ q ∈ pending
  demanded : ∀ q ∈ pending, ∃ e ∈ u.records, q ∈ e.2.references
  nodup_candidates : u.candidates.Nodup
  mem_candidates : ∀ name, name ∈ u.candidates ↔
    ∃ r, (name, r) ∈ u.records ∧ (t.Admits x name ∨ r.isExternal = true)

namespace Traces

variable {t : ClassTable} {x : Exclusion} {ahead : List String}
  {pending : List (String × ClassKind)} {u : Universe}

/-- The invariant holds at the start. -/
theorem empty : Traces t x t.own [] Universe.empty where
  nodup := List.nodup_nil
  awaited _ h := .inr h.1
  loaded _ h := nomatch h
  inScope _ h := nomatch h
  followed _ h := nomatch h
  demanded _ h := nomatch h
  nodup_candidates := List.nodup_nil
  mem_candidates name := by simp [Universe.empty]

/-- An own name with a record, or one that is left out, need not be awaited. -/
theorem pass {name : String} (h : Traces t x (name :: ahead) pending u)
    (hn : t.Admits x name → u.knows name = true) : Traces t x ahead pending u where
  __ := h
  awaited n ha := by
    rcases h.awaited n ha with hk | hm
    · exact .inl hk
    · rcases List.mem_cons.mp hm with rfl | hm
      · exact .inl (hn ha)
      · exact .inr hm

/-- A reference to a name with a record need not be followed. -/
theorem drop {q : String × ClassKind} (h : Traces t x ahead (q :: pending) u)
    (hq : u.knows q.1 = true) : Traces t x ahead pending u where
  __ := h
  followed e he q' hq' := by
    rcases h.followed e he q' hq' with hk | hm
    · exact .inl hk
    · rcases List.mem_cons.mp hm with rfl | hm
      · exact .inl hq
      · exact .inr hm
  demanded q' hq' := h.demanded q' (List.mem_cons_of_mem _ hq')

/-- What a record refers to, its class refers to. -/
theorem refers (ht : t.Coherent) (h : Traces t x ahead pending u) {e : String × ClassRecord}
    (he : e ∈ u.records) {name : String} {role : ClassKind} (hq : (name, role) ∈ e.2.references) :
    t.Refers e.1 name role := by
  obtain ⟨_, hr, -⟩ := h.loaded e he
  rcases ht.record_eq_ok hr with ⟨loaded, hl, heq⟩ | ⟨-, heq⟩
  · rw [heq, ClassRecord.mem_references_ofClassFile] at hq
    exact ⟨loaded.file, ClassTable.file?_eq_some.mpr ⟨loaded, hl, rfl⟩, hq⟩
  · simp [heq] at hq

/-- A name without a record is no candidate. -/
theorem not_mem_candidates (h : Traces t x ahead pending u) {name : String}
    (hnew : ¬ u.knows name = true) : name ∉ u.candidates := by
  intro hm
  obtain ⟨r, hr, -⟩ := (h.mem_candidates name).mp hm
  exact hnew (knows_iff_mem.mpr (List.mem_map_of_mem (f := (·.1)) hr))

/-- A record that is loaded for a reason can be added; its references are pending. -/
theorem add (ht : t.Coherent) {name : String} {role : ClassKind} {r : ClassRecord} {isCandidate : Bool}
    (h : Traces t x ahead pending u) (hnew : ¬ u.knows name = true)
    (hr : t.record name role = .ok r)
    (hwhy : t.Admits x name ∨ ∃ e ∈ u.records, (name, role) ∈ e.2.references)
    (hc : isCandidate = true ↔ t.Admits x name ∨ r.isExternal = true) :
    Traces t x ahead (pending ++ r.references) (u.add name r isCandidate) where
  nodup := nodup_records_add h.nodup hnew
  awaited n ha := (h.awaited n ha).imp_left fun hk => knows_add.mpr (.inl hk)
  loaded e he := by
    have hkept {n : String} {role : ClassKind} (hw : t.Admits x n ∨
        ∃ e' ∈ u.records, (n, role) ∈ e'.2.references) : t.Admits x n ∨
        ∃ e' ∈ (u.add name r isCandidate).records, (n, role) ∈ e'.2.references :=
      hw.imp_right fun ⟨e', he', hq⟩ => ⟨e', mem_records_add.mpr (.inl he'), hq⟩
    rcases mem_records_add.mp he with he | rfl
    · obtain ⟨role, hl, hw⟩ := h.loaded e he
      exact ⟨role, hl, hkept hw⟩
    · exact ⟨role, hr, hkept hwhy⟩
  inScope e he := by
    rcases mem_records_add.mp he with he | rfl
    · exact h.inScope e he
    · rcases hwhy with ha | ⟨e', he', hq⟩
      · exact ha.inScope
      · exact (h.inScope e' he').step (h.refers ht he' hq)
  followed e he q hq := by
    rcases mem_records_add.mp he with he | rfl
    · rcases h.followed e he q hq with hk | hm
      · exact .inl (knows_add.mpr (.inl hk))
      · exact .inr (List.mem_append_left _ hm)
    · exact .inr (List.mem_append_right _ hq)
  demanded q hq := by
    rcases List.mem_append.mp hq with hq | hq
    · obtain ⟨e, he, hq⟩ := h.demanded q hq
      exact ⟨e, mem_records_add.mpr (.inl he), hq⟩
    · exact ⟨(name, r), mem_records_add.mpr (.inr rfl), hq⟩
  nodup_candidates := nodup_candidates_add h.nodup_candidates (h.not_mem_candidates hnew)
  mem_candidates n := by
    rw [mem_candidates_add, h.mem_candidates n, hc]
    constructor
    · rintro (⟨r', hr', hw⟩ | ⟨rfl, hw⟩)
      · exact ⟨r', mem_records_add.mpr (.inl hr'), hw⟩
      · exact ⟨r, mem_records_add.mpr (.inr rfl), hw⟩
    · rintro ⟨r', hr', hw⟩
      rcases mem_records_add.mp hr' with hr' | heq
      · exact .inl ⟨r', hr', hw⟩
      · cases heq
        exact .inr ⟨rfl, hw⟩

/-- When nothing is ahead, following a pending reference keeps the invariant: the class was
referred to, and it is a candidate exactly if it is external. -/
theorem follow (ht : t.Coherent) {name : String} {role : ClassKind}
    {pending : List (String × ClassKind)} {u : Universe} {r : ClassRecord}
    (h : Traces t x [] ((name, role) :: pending) u) (hnew : ¬ u.knows name = true)
    (hr : t.record name role = .ok r) :
    Traces t x [] (pending ++ r.references) (u.add name r r.isExternal) := by
  have hwhy := h.demanded (name, role) List.mem_cons_self
  have hcand : r.isExternal = true ↔ t.Admits x name ∨ r.isExternal = true := by
    have hna : ¬ t.Admits x name := fun ha => (h.awaited name ha).elim hnew (nomatch ·)
    simp [hna]
  exact (h.add ht hnew hr (.inr hwhy) hcand).drop (knows_add.mpr (.inr rfl))

end Traces

/-! ## 3. The loops -/

variable {t : ClassTable} {x : Exclusion}

/-- What the steps of the second loop preserve holds behind it. A name with a class is
unread until it has a record, so a name that is not unread has a placeholder. -/
theorem close_induction {P : List (String × ClassKind) → Universe → Prop}
    (hdrop : ∀ {q pending u}, P (q :: pending) u → u.knows q.1 = true → P pending u)
    (hadd : ∀ {name kind pending u r}, P ((name, kind) :: pending) u → ¬ u.knows name = true →
      t.record name kind = .ok r → P (pending ++ r.references) (u.add name r r.isExternal))
    {unread : List String} {pending : List (String × ClassKind)} {u u' : Universe}
    (hunread : ∀ n ∈ t.defined, ¬ u.knows n = true → n ∈ unread)
    (h : P pending u) (hc : close t unread pending u = .ok u') : P [] u' := by
  induction unread, pending, u using close.induct t with
  | case1 unread u =>
    rw [close] at hc
    cases hc
    exact h
  | case2 unread u name kind rest hk ih =>
    rw [close, if_pos hk] at hc
    exact ih hunread (hdrop h hk) hc
  | case3 unread u name kind rest hk hm why hr =>
    rw [close, if_neg hk, dif_pos hm, hr] at hc
    cases hc
  | case4 unread u name kind rest hk hm r hr ih =>
    rw [close, if_neg hk, dif_pos hm, hr] at hc
    refine ih ?_ (hadd h hk hr) hc
    intro n hn hnk
    rw [knows_add, not_or] at hnk
    exact (List.mem_erase_of_ne hnk.2).mpr (hunread n hn hnk.1)
  | case5 unread u name kind rest hk hm ih =>
    rw [close, if_neg hk, dif_neg hm] at hc
    have hr : t.record name kind = .ok (.placeholder name kind) :=
      ClassTable.record_of_not_mem fun hd => hm (hunread name hd hk)
    have hplaceholder := hadd h hk hr
    rw [ClassRecord.references_placeholder, List.append_nil] at hplaceholder
    refine ih ?_ hplaceholder hc
    intro n hn hnk
    rw [knows_add, not_or] at hnk
    exact hunread n hn hnk.1

/-- The second loop follows all pending references. -/
theorem close_traces (ht : t.Coherent) {unread : List String} {pending : List (String × ClassKind)}
    {u u' : Universe} (hunread : ∀ n ∈ t.defined, ¬ u.knows n = true → n ∈ unread)
    (h : Traces t x [] pending u) (hc : close t unread pending u = .ok u') :
    Traces t x [] [] u' :=
  close_induction (P := Traces t x []) (fun h hk => h.drop hk) (fun h hk hr => h.follow ht hk hr)
    hunread h hc

/-- The first loop takes the own classes that are admitted. -/
theorem addOwn_traces (ht : t.Coherent) {ahead : List String} {u : Universe}
    {references : List (String × ClassKind)} {result : Universe × List (String × ClassKind)}
    (hown : ∀ n ∈ ahead, n ∈ t.own ∧ ¬ u.knows n = true) (hnodup : ahead.Nodup)
    (h : Traces t x ahead references u)
    (hc : (addOwn t x ahead u references).outcome = .ok result) :
    Traces t x [] result.2 result.1 := by
  induction ahead, u, references using addOwn.induct x with
  | case1 u references =>
    rw [addOwn, Report.outcome_pure] at hc
    cases hc
    exact h
  | case2 name rest u references hx ih =>
    rw [addOwn, if_pos hx] at hc
    obtain ⟨_, -, hc⟩ := Report.outcome_bind_eq_ok.mp hc
    rw [List.nodup_cons] at hnodup
    refine ih (fun n hn => hown n (List.mem_cons_of_mem _ hn)) hnodup.2 (h.pass ?_) hc
    intro ha
    rw [ha.2] at hx
    cases hx
  | case3 name rest u references hx ih =>
    rw [addOwn, if_neg hx] at hc
    obtain ⟨r, hr, hc⟩ := Report.outcome_bind_eq_ok.mp hc
    rw [List.nodup_cons] at hnodup
    have hname := hown name List.mem_cons_self
    have ha : t.Admits x name := ⟨hname.1, by simpa using hx⟩
    refine ih r ?_ hnodup.2 ?_ hc
    · intro n hn
      have hn' := hown n (List.mem_cons_of_mem _ hn)
      refine ⟨hn'.1, fun hk => ?_⟩
      rcases knows_add.mp hk with hk | rfl
      · exact hn'.2 hk
      · exact hnodup.1 hn
    · exact (h.add ht hname.2 hr (.inl ha) (by simp [ha])).pass fun _ => knows_add.mpr (.inr rfl)

/-- Own names are distinct, so the first loop ends with the invariant. -/
theorem addOwn_own_traces (ht : t.Coherent) {start : Universe × List (String × ClassKind)}
    (hs : (addOwn t x t.own empty []).outcome = .ok start) : Traces t x [] start.2 start.1 :=
  addOwn_traces ht (fun _ hn => ⟨hn, by simp [knows, record?, empty]⟩)
    (ht.own_lt.imp fun hlt => ne_of_lt hlt) Traces.empty hs

/-- Enumeration ends with the invariant and nothing ahead or pending. -/
theorem enumerate_traces (ht : t.Coherent) {target : Path} {u : Universe}
    (hu : (enumerate t x target).outcome = .ok u) : Traces t x [] [] u := by
  obtain ⟨⟨admitted, references⟩, ha, hu⟩ := Report.outcome_bind_eq_ok.mp hu
  obtain ⟨u', hc, hu⟩ := Report.outcome_bind_eq_ok.mp hu
  obtain ⟨_, -, hu⟩ := Report.outcome_bind_eq_ok.mp hu
  cases hu
  refine close_traces ht ?_ (addOwn_own_traces ht ha) hc
  intro n hn hk
  simpa [hn] using hk

/-! ## 4. Complete universes -/

namespace Traces

variable {u : Universe} (ht : t.Coherent) (h : Traces t x [] [] u)
include h

theorem record?_eq_some_iff {name : String} {r : ClassRecord} :
    u.record? name = some r ↔ (name, r) ∈ u.records := lookup_eq_some_iff_mem h.nodup

theorem loaded_of_record? {name : String} {r : ClassRecord} (hr : u.record? name = some r) :
    ∃ role, t.record name role = .ok r ∧
      (t.Admits x name ∨ ∃ e ∈ u.records, (name, role) ∈ e.2.references) :=
  h.loaded (name, r) (h.record?_eq_some_iff.mp hr)

include ht

/-- A name in scope with a class has the record of the class. -/
theorem record?_of_file? {name : String} {c : ClassFile} (hk : u.knows name = true)
    (hc : t.file? name = some c) :
    ∃ isExternal, u.record? name = some (.ofClassFile isExternal c) := by
  obtain ⟨r, hr⟩ := knows_iff_exists.mp hk
  obtain ⟨role, hload, -⟩ := h.loaded_of_record? hr
  obtain ⟨loaded, hl, rfl⟩ := ClassTable.file?_eq_some.mp hc
  rcases ht.record_eq_ok hload with ⟨loaded', hl', heq⟩ | ⟨hnone, -⟩
  · rw [hl] at hl'
    cases hl'
    exact ⟨loaded.isExternal, by rw [hr, ← heq]⟩
  · rw [hl] at hnone
    cases hnone

/-- The names with records are those in scope. -/
theorem knows_iff_inScope {name : String} : u.knows name = true ↔ t.InScope x name := by
  constructor
  · intro hk
    obtain ⟨r, hr⟩ := knows_iff_exists.mp hk
    exact h.inScope _ (h.record?_eq_some_iff.mp hr)
  · rintro ⟨root, hroot, hreach⟩
    induction hreach with
    | refl => simpa using h.awaited root hroot
    | step _ hrefers ih =>
      obtain ⟨c, hc, hto⟩ := hrefers
      obtain ⟨e, hr⟩ := h.record?_of_file? ht ih hc
      have hmem := @ClassRecord.mem_references_ofClassFile e |>.mpr hto
      simpa using h.followed _ (h.record?_eq_some_iff.mp hr) _ hmem

/-- Whether a record is external tells whether the target defines the class. -/
theorem isExternal_eq_false_iff {name : String} {r : ClassRecord}
    (hr : u.record? name = some r) : r.isExternal = false ↔ name ∈ t.own := by
  obtain ⟨role, hload, -⟩ := h.loaded_of_record? hr
  rcases ht.record_eq_ok hload with ⟨loaded, hl, rfl⟩ | ⟨hl, rfl⟩
  · by_cases hn : name ∈ t.own
    · obtain ⟨file, hfile⟩ := ht.lookUp_own hn hl
      cases hfile
      simp [hn, ClassRecord.ofClassFile]
    · simp [hn, ClassRecord.ofClassFile, ht.lookUp_other hn hl]
  · have hn : name ∉ t.own := fun hn => by
      obtain ⟨_, hfile⟩ := ht.lookUp_own hn hl
      cases hfile
    simp [hn, ClassRecord.placeholder]

/-- A record is that of a class file, or a placeholder whose kind is the role of a
reference to it. -/
theorem record?_cases {name : String} {r : ClassRecord} (hr : u.record? name = some r) :
    (∃ isExternal c, t.file? name = some c ∧ r = .ofClassFile isExternal c) ∨
      ∃ role from', t.lookUp name = .ok none ∧ t.InScope x from' ∧ t.Refers from' name role ∧
        r = .placeholder name role := by
  obtain ⟨role, hload, hwhy⟩ := h.loaded_of_record? hr
  rcases ht.record_eq_ok hload with ⟨loaded, hl, rfl⟩ | ⟨hl, rfl⟩
  · exact .inl ⟨_, _, ClassTable.file?_eq_some.mpr ⟨loaded, hl, rfl⟩, rfl⟩
  · rcases hwhy with ha | ⟨e, he, hq⟩
    · obtain ⟨_, hfile⟩ := ht.lookUp_own ha.1 hl
      cases hfile
    · exact .inr ⟨role, e.1, hl, h.inScope e he, h.refers ht he hq, rfl⟩

/-- An admitted class has the record of its class file, found in the target. -/
theorem exists_record_of_admits {name : String} (ha : t.Admits x name) :
    ∃ c, t.file? name = some c ∧ u.record? name = some (.ofClassFile false c) := by
  obtain ⟨r, hr⟩ := knows_iff_exists.mp ((h.knows_iff_inScope ht).mpr ha.inScope)
  have he := (h.isExternal_eq_false_iff ht hr).mpr ha.1
  rcases h.record?_cases ht hr with ⟨e, c, hc, rfl⟩ | ⟨_, _, -, -, -, rfl⟩
  · cases he
    exact ⟨c, hc, hr⟩
  · cases he

/-- Where roles are single, the placeholder of a name has the role of any reference to
the name. -/
theorem record?_placeholder (hroles : t.HasSingleRoles x) {name from' : String}
    {role : ClassKind} (hnone : t.lookUp name = .ok none) (hscope : t.InScope x from')
    (hrefers : t.Refers from' name role) :
    u.record? name = some (.placeholder name role) := by
  obtain ⟨r, hr⟩ := knows_iff_exists.mp ((h.knows_iff_inScope ht).mpr (hscope.step hrefers))
  rcases h.record?_cases ht hr with ⟨_, c, hc, -⟩ | ⟨role', from'', -, hscope', hrefers', heq⟩
  · obtain ⟨loaded, hl, -⟩ := ClassTable.file?_eq_some.mp hc
    rw [hnone] at hl
    cases hl
  · rw [hr, heq, hroles name hnone _ _ _ _ hscope' hscope hrefers' hrefers]

/-- Where classes are stored under their own names, records are too. -/
theorem name_of_record? (hnames : t.StoredByName) {name : String} {r : ClassRecord}
    (hr : u.record? name = some r) : r.name = name := by
  rcases h.record?_cases ht hr with ⟨_, c, hc, rfl⟩ | ⟨_, _, -, -, -, rfl⟩
  · exact hnames name c hc
  · rfl

end Traces

end Universe

end ApiSurface
