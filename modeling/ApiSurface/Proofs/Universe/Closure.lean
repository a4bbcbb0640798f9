/-
ApiSurface.Proofs.Universe.Closure — enumeration ends with the closure of the admitted
classes, or at a class that cannot be read.

The loop that follows references has pending references and the classes met so far. A
turn takes the first reference: it drops it or adds the class that it names, whose own
references are pending then, some of them maybe again. `Walks` says where such turns
lead. They end from every state and at one end only, and this is what enumeration gives
(`enumerate_walks_iff`).

The invariant `Traces` holds in all states on the way and not only at the end. So the class
at which enumeration fails is in scope (`Walks.exists_unreadable`); and a universe that is
complete leaves out no class in scope, so none of them can be one that cannot be read.
-/
import ApiSurface.Proofs.Scan.Locality
import Mathlib.Order.Bounds.Defs

namespace ApiSurface

/-- Whether a fault says that an entry cannot be opened, or a class not be read. -/
def Fault.isResolution : Fault → Bool
  | .cannotOpen _ _ | .cannotRead _ _ _ | .cannotParse _ _ => true
  | _ => false

/-! ## 1. The names in scope as a least set -/

namespace ClassTable

/-- A set of names has the admitted classes, and with each class the names to which it
refers. -/
def Closes (t : ClassTable) (x : Exclusion) (names : Set String) : Prop :=
  (∀ n, t.Admits x n → n ∈ names) ∧
    ∀ a b role, a ∈ names → t.Refers a b role → b ∈ names

theorem isLeast_inScope (t : ClassTable) (x : Exclusion) :
    IsLeast {names | t.Closes x names} {n | t.InScope x n} := by
  refine ⟨⟨fun n ha => ha.inScope, fun a b role ha hr => InScope.step ha hr⟩, ?_⟩
  rintro names ⟨hroots, hstep⟩ n ⟨root, hroot, hreach⟩
  induction hreach with
  | refl => exact hroots root hroot
  | step _ hr ih => exact hstep _ _ _ ih hr

/-- A class that cannot be read is one that lookup cannot read. -/
theorem lookUp_of_record_eq_error {t : ClassTable} {name : String} {role : ClassKind} {why : Fault}
    (h : t.record name role = .error why) : t.lookUp name = .error why := by
  unfold record at h
  split at h
  · cases hl : t.lookUp name with
    | error why' =>
      rw [hl] at h
      cases h
      rfl
    | ok found =>
      rw [hl] at h
      cases h
  · cases h

end ClassTable

/-! ## 2. Turns of the loop -/

namespace Universe

/-- A state of the loop: the pending references, and the classes met so far. -/
abbrev Walk := List (String × ClassKind) × Universe

/-- One turn: the first reference is dropped if its name has a record, and followed if its
class can be read. -/
inductive Turn (t : ClassTable) : Walk → Walk → Prop where
  | drop {q : String × ClassKind} {pending : List (String × ClassKind)} {u : Universe} :
      u.knows q.1 = true → Turn t (q :: pending, u) (pending, u)
  | follow {name : String} {role : ClassKind} {pending : List (String × ClassKind)} {u : Universe}
      {r : ClassRecord} :
      ¬ u.knows name = true → t.record name role = .ok r →
        Turn t ((name, role) :: pending, u) (pending ++ r.references, u.add name r r.isExternal)

/-- Where finitely many turns lead: to nothing pending, or to a class that cannot be read. -/
inductive Walks (t : ClassTable) : Walk → Except Fault Universe → Prop where
  | done {u : Universe} : Walks t ([], u) (.ok u)
  | stuck {name : String} {role : ClassKind} {pending : List (String × ClassKind)} {u : Universe}
      {why : Fault} :
      ¬ u.knows name = true → t.record name role = .error why →
        Walks t ((name, role) :: pending, u) (.error why)
  | turn {w w' : Walk} {outcome : Except Fault Universe} :
      Turn t w w' → Walks t w' outcome → Walks t w outcome

variable {t : ClassTable} {x : Exclusion}

/-- The second loop of enumeration takes turns until none is left. -/
theorem close_walks {unread : List String} {pending : List (String × ClassKind)} {u : Universe}
    (hunread : ∀ n ∈ t.defined, ¬ u.knows n = true → n ∈ unread) :
    Walks t (pending, u) (close t unread pending u) := by
  induction unread, pending, u using close.induct t with
  | case1 unread u =>
    rw [close]
    exact .done
  | case2 unread u name kind rest hk ih =>
    rw [close, if_pos hk]
    exact .turn (.drop hk) (ih hunread)
  | case3 unread u name kind rest hk hm why hr =>
    rw [close, if_neg hk, dif_pos hm, hr]
    exact .stuck hk hr
  | case4 unread u name kind rest hk hm r hr ih =>
    rw [close, if_neg hk, dif_pos hm, hr]
    refine .turn (.follow hk hr) (ih fun n hn hnk => ?_)
    rw [knows_add, not_or] at hnk
    exact (List.mem_erase_of_ne hnk.2).mpr (hunread n hn hnk.1)
  | case5 unread u name kind rest hk hm ih =>
    rw [close, if_neg hk, dif_neg hm]
    have hr : t.record name kind = .ok (.placeholder name kind) :=
      ClassTable.record_of_not_mem fun hd => hm (hunread name hd hk)
    have hturn : Turn t ((name, kind) :: rest, u) _ := .follow hk hr
    rw [ClassRecord.references_placeholder, List.append_nil] at hturn
    refine .turn hturn (ih fun n hn hnk => ?_)
    rw [knows_add, not_or] at hnk
    exact hunread n hn hnk.1

/-- A turn leads to one state only. -/
theorem Turn.unique {w w₁ w₂ : Walk} (h₁ : Turn t w w₁) (h₂ : Turn t w w₂) : w₁ = w₂ := by
  cases h₁ with
  | drop hk =>
    cases h₂ with
    | drop => rfl
    | follow hk' => exact absurd hk hk'
  | follow hk hr =>
    cases h₂ with
    | drop hk' => exact absurd hk' hk
    | follow _ hr' =>
      rw [hr] at hr'
      cases hr'
      rfl

/-- Turns lead to one end only. -/
theorem Walks.unique {w : Walk} {outcome outcome' : Except Fault Universe}
    (h : Walks t w outcome) (h' : Walks t w outcome') : outcome = outcome' := by
  induction h with
  | done =>
    cases h' with
    | done => rfl
    | turn hturn => cases hturn
  | stuck hk hr =>
    cases h' with
    | stuck _ hr' =>
      rw [hr] at hr'
      cases hr'
      rfl
    | turn hturn =>
      cases hturn with
      | drop hk' => exact absurd hk' hk
      | follow _ hr' =>
        rw [hr] at hr'
        cases hr'
  | turn hturn _ ih =>
    cases h' with
    | done => cases hturn
    | stuck hk hr =>
      cases hturn with
      | drop hk' => exact absurd hk' hk
      | follow _ hr' =>
        rw [hr] at hr'
        cases hr'
    | turn hturn' hw' => exact ih (hturn.unique hturn' ▸ hw')

/-- The loop ends from every state, whatever the classes refer to, and `close` gives its end. -/
theorem walks_iff {unread : List String} {pending : List (String × ClassKind)} {u : Universe}
    (hunread : ∀ n ∈ t.defined, ¬ u.knows n = true → n ∈ unread)
    {outcome : Except Fault Universe} :
    Walks t (pending, u) outcome ↔ outcome = close t unread pending u :=
  ⟨fun h => h.unique (close_walks hunread), fun h => h ▸ close_walks hunread⟩

/-! ## 3. What turns preserve -/

/-- A turn keeps the invariant: a class that is added was referred to. -/
theorem Traces.turn (ht : t.Coherent) {w w' : Walk} (h : Traces t x [] w.1 w.2)
    (hturn : Turn t w w') : Traces t x [] w'.1 w'.2 := by
  cases hturn with
  | drop hk => exact h.drop hk
  | follow hk hr => exact h.follow ht hk hr

/-- A pending reference leads to a name in scope. -/
theorem Traces.inScope_of_pending (ht : t.Coherent) {ahead : List String}
    {pending : List (String × ClassKind)} {u : Universe} (h : Traces t x ahead pending u)
    {name : String} {role : ClassKind} (hq : (name, role) ∈ pending) : t.InScope x name := by
  obtain ⟨e, he, hq⟩ := h.demanded _ hq
  exact (h.inScope e he).step (h.refers ht he hq)

/-- Where turns lead to a failure, it is that of a class in scope. -/
theorem Walks.exists_unreadable (ht : t.Coherent) {w : Walk} {why : Fault}
    (hw : Walks t w (.error why)) (h : Traces t x [] w.1 w.2) :
    ∃ name, t.InScope x name ∧ t.lookUp name = .error why := by
  generalize ho : Except.error why = outcome at hw
  induction hw with
  | done => cases ho
  | @stuck name role _ _ _ _ hr =>
    cases ho
    exact ⟨name, h.inScope_of_pending ht List.mem_cons_self,
      ClassTable.lookUp_of_record_eq_error hr⟩
  | turn hturn _ ih => exact ih (h.turn ht hturn) ho

/-- Where the first loop fails, it is at an admitted class. -/
theorem addOwn_eq_error {ahead : List String} {u : Universe}
    {references : List (String × ClassKind)} {why : Fault} (hown : ∀ n ∈ ahead, n ∈ t.own)
    (hc : (addOwn t x ahead u references).outcome = .error why) :
    ∃ name, t.Admits x name ∧ t.lookUp name = .error why := by
  induction ahead, u, references using addOwn.induct x with
  | case1 u references =>
    rw [addOwn, Report.outcome_pure] at hc
    cases hc
  | case2 name rest u references hx ih =>
    rw [addOwn, if_pos hx] at hc
    exact ih (fun n hn => hown n (List.mem_cons_of_mem _ hn)) hc
  | case3 name rest u references hx ih =>
    rw [addOwn, if_neg hx, Report.outcome_bind, Report.outcome_ofExcept] at hc
    cases hr : t.record name .ordinary with
    | error why' =>
      rw [hr] at hc
      cases hc
      exact ⟨name, ⟨hown name List.mem_cons_self, by simpa using hx⟩,
        ClassTable.lookUp_of_record_eq_error hr⟩
    | ok r =>
      rw [hr] at hc
      exact ih r (fun n hn => hown n (List.mem_cons_of_mem _ hn)) hc

/-! ## 4. Enumeration -/

/-- Behind the first loop, enumeration gives what the second one ends with. -/
theorem outcome_enumerate {start : Universe × List (String × ClassKind)} {target : Path}
    (hs : (addOwn t x t.own empty []).outcome = .ok start) :
    (enumerate t x target).outcome =
      close t (t.defined.filter fun name => !start.1.knows name) start.2 start.1 := by
  simp only [enumerate, Report.outcome_bind, hs, Report.outcome_ofExcept]
  simp only [bind, Except.bind]
  cases close t (t.defined.filter fun name => !start.1.knows name) start.2 start.1 <;> rfl

/-- Enumeration is what turns from the admitted classes lead to. -/
theorem enumerate_walks_iff (target : Path) {start : Universe × List (String × ClassKind)}
    (hs : (addOwn t x t.own empty []).outcome = .ok start) {outcome : Except Fault Universe} :
    Walks t (start.2, start.1) outcome ↔ outcome = (enumerate t x target).outcome := by
  rw [outcome_enumerate hs]
  exact walks_iff fun n hn hk => by simpa [hn] using hk

/-- Where enumeration fails, it is at a class in scope that cannot be read. -/
theorem enumerate_eq_error (ht : t.Coherent) {target : Path} {why : Fault}
    (he : (enumerate t x target).outcome = .error why) :
    ∃ name, t.InScope x name ∧ t.lookUp name = .error why := by
  cases hs : (addOwn t x t.own empty []).outcome with
  | error why' =>
    rw [enumerate, Report.outcome_bind, hs] at he
    cases he
    obtain ⟨name, ha, hl⟩ := addOwn_eq_error (fun _ hn => hn) hs
    exact ⟨name, ha.inScope, hl⟩
  | ok start =>
    exact ((enumerate_walks_iff target hs).mpr he.symm).exists_unreadable ht (addOwn_own_traces ht hs)

/-- A complete universe leaves out no class in scope, so all of these can be read. -/
theorem Traces.lookUp_ne_error (ht : t.Coherent) {u : Universe} (h : Traces t x [] [] u)
    {name : String} (hscope : t.InScope x name) (why : Fault) : t.lookUp name ≠ .error why := by
  obtain ⟨r, hr⟩ := knows_iff_exists.mp ((h.knows_iff_inScope ht).mpr hscope)
  obtain ⟨role, hload, -⟩ := h.loaded_of_record? hr
  rcases ht.record_eq_ok hload with ⟨loaded, hl, -⟩ | ⟨hl, -⟩
  · rw [hl]
    exact nofun
  · rw [hl]
    exact nofun

/-- Enumeration fails exactly where a class in scope cannot be read. -/
theorem exists_enumerate_eq_error_iff (ht : t.Coherent) {target : Path} :
    (∃ why, (enumerate t x target).outcome = .error why) ↔
      ∃ name why, t.InScope x name ∧ t.lookUp name = .error why := by
  constructor
  · rintro ⟨why, he⟩
    obtain ⟨name, hscope, hl⟩ := enumerate_eq_error ht he
    exact ⟨name, why, hscope, hl⟩
  · rintro ⟨name, why, hscope, hl⟩
    cases hu : (enumerate t x target).outcome with
    | error why' => exact ⟨why', rfl⟩
    | ok u => exact absurd hl ((enumerate_traces ht hu).lookUp_ne_error ht hscope why)

/-- A universe is the closure of the admitted classes: it has the names in scope and no
others, each with its class, and knows which of them may be published. -/
structure IsClosureOf (u : Universe) (t : ClassTable) (x : Exclusion) : Prop where
  nodup : (u.records.map (·.1)).Nodup
  knows_iff : ∀ name, u.knows name = true ↔ t.InScope x name
  /-- Every reference that a record makes leads to a record. -/
  closed : ∀ name r, u.record? name = some r → ∀ q ∈ r.references, u.knows q.1 = true
  /-- A name that is defined has the record of its class. -/
  defined : ∀ name r, u.record? name = some r → name ∈ t.defined →
    ∃ loaded, t.lookUp name = .ok (some loaded) ∧ r = .ofClassFile loaded.isExternal loaded.file
  /-- A name that is not defined has an external record without references. -/
  undefined : ∀ name r, u.record? name = some r → name ∉ t.defined →
    (∃ role, r = .placeholder name role) ∧ r.isExternal = true ∧ r.references = []
  nodup_candidates : u.candidates.Nodup
  mem_candidates : ∀ name, name ∈ u.candidates ↔
    t.Admits x name ∨ ∃ r, u.record? name = some r ∧ r.isExternal = true
  /-- An own class that is left out is no candidate and not external where it is met. -/
  leftOut : ∀ name r, u.record? name = some r → name ∈ t.own → x.covers name = true →
    r.isExternal = false ∧ name ∉ u.candidates

/-- What the invariant says when nothing is ahead or pending. -/
theorem Traces.isClosureOf (ht : t.Coherent) {u : Universe} (h : Traces t x [] [] u)
    (hdefined : ∀ name ∈ t.defined, t.lookUp name ≠ .ok none) : u.IsClosureOf t x := by
  have hcandidates : ∀ name, name ∈ u.candidates ↔
      t.Admits x name ∨ ∃ r, u.record? name = some r ∧ r.isExternal = true := fun name => by
    rw [h.mem_candidates]
    constructor
    · rintro ⟨r, hr, ha | he⟩
      · exact .inl ha
      · exact .inr ⟨r, h.record?_eq_some_iff.mpr hr, he⟩
    · rintro (ha | ⟨r, hr, he⟩)
      · obtain ⟨c, -, hr⟩ := h.exists_record_of_admits ht ha
        exact ⟨_, h.record?_eq_some_iff.mp hr, .inl ha⟩
      · exact ⟨r, h.record?_eq_some_iff.mp hr, .inr he⟩
  refine ⟨h.nodup, fun name => h.knows_iff_inScope ht, fun name r hr q hq => ?_,
    fun name r hr hn => ?_, fun name r hr hn => ?_, h.nodup_candidates, hcandidates,
    fun name r hr hown hx => ?_⟩
  · simpa using h.followed _ (h.record?_eq_some_iff.mp hr) q hq
  · obtain ⟨role, hload, -⟩ := h.loaded_of_record? hr
    exact (ht.record_eq_ok hload).resolve_right fun hnone => hdefined name hn hnone.1
  · obtain ⟨role, hload, -⟩ := h.loaded_of_record? hr
    rw [ClassTable.record_of_not_mem hn] at hload
    cases hload
    exact ⟨⟨role, rfl⟩, rfl, ClassRecord.references_placeholder name role⟩
  · have he := (h.isExternal_eq_false_iff ht hr).mpr hown
    refine ⟨he, fun hc => ?_⟩
    rcases (hcandidates name).mp hc with ha | ⟨r', hr', he'⟩
    · rw [ha.2] at hx
      cases hx
    · rw [hr] at hr'
      cases hr'
      rw [he] at he'
      cases he'

/-- Enumeration of a target that is opened ends, whatever the classes refer to. Where a class
in scope cannot be read, it fails as reading the class does; otherwise it gives the
closure of the admitted classes. -/
theorem enumerate_computes_closure {d : Disk} {home : Place} {target : Path}
    {classpath : List Path} {h : Handle}
    (hopen : (Handle.resolve d home target classpath).outcome = .ok h)
    (htable : h.table d home = t) (x : Exclusion) :
    IsLeast {names | t.Closes x names} {n | t.InScope x n} ∧
      (∀ start, (addOwn t x t.own empty []).outcome = .ok start → ∀ outcome,
        Walks t (start.2, start.1) outcome ↔ outcome = (enumerate t x h.target).outcome) ∧
      (∀ why, (enumerate t x h.target).outcome = .error why →
        ∃ name, t.InScope x name ∧ t.lookUp name = .error why) ∧
      (∀ name why, t.InScope x name → t.lookUp name = .error why →
        ∃ why', (enumerate t x h.target).outcome = .error why') ∧
      ((∀ name why, t.InScope x name → t.lookUp name = .error why → why.isResolution = true) →
        ((∃ why, (enumerate t x h.target).outcome = .error why ∧ why.isResolution = true) ↔
          ∃ name why, t.InScope x name ∧ t.lookUp name = .error why ∧ why.isResolution = true)) ∧
      ∀ u, (enumerate t x h.target).outcome = .ok u → u.IsClosureOf t x := by
  subst htable
  have ht := Handle.coherent_table hopen
  have hdefined : ∀ name ∈ (h.table d home).defined, (h.table d home).lookUp name ≠ .ok none :=
    fun _ hn => Handle.lookUp_of_mem_names (Handle.isComplete_own hopen)
      (Handle.isComplete_dependencies hopen) hn
  refine ⟨ClassTable.isLeast_inScope _ x, fun start hs outcome => enumerate_walks_iff h.target hs,
    fun why he => enumerate_eq_error ht he, fun name why hscope hl =>
      (exists_enumerate_eq_error_iff ht).mpr ⟨name, why, hscope, hl⟩, fun hall => ?_,
    fun u hu => (enumerate_traces ht hu).isClosureOf ht hdefined⟩
  constructor
  · rintro ⟨why, he, hres⟩
    obtain ⟨name, hscope, hl⟩ := enumerate_eq_error ht he
    exact ⟨name, why, hscope, hl, hres⟩
  · rintro ⟨name, why, hscope, hl, -⟩
    obtain ⟨why', he⟩ := (exists_enumerate_eq_error_iff ht).mpr ⟨name, why, hscope, hl⟩
    obtain ⟨name', hscope', hl'⟩ := enumerate_eq_error ht he
    exact ⟨why', he, hall name' why' hscope' hl'⟩

/-- In the small target `p.A` reaches `p.B`, which is left out, and `q.C`, which nothing
defines. -/
theorem enumerate_computes_closure_of_sample :
    (enumerate Scan.Sample.table (Scan.Sample.settings ["p.B"]).exclusion
        Scan.Sample.target).outcome = .ok Scan.Sample.knownWithoutB ∧
      Scan.Sample.knownWithoutB.IsClosureOf Scan.Sample.table
        (Scan.Sample.settings ["p.B"]).exclusion ∧
      ∀ name, Scan.Sample.table.InScope (Scan.Sample.settings ["p.B"]).exclusion name ↔
        name ∈ ["p.A", "p.B", "q.C"] := by
  have hu : (enumerate Scan.Sample.table (Scan.Sample.settings ["p.B"]).exclusion
      Scan.Sample.target).outcome = .ok Scan.Sample.knownWithoutB := by cbv
  obtain ⟨-, -, -, -, -, hclosure⟩ := enumerate_computes_closure Scan.Sample.resolve_target
    Scan.Sample.table_handle (Scan.Sample.settings ["p.B"]).exclusion
  have hclosed := hclosure _ hu
  exact ⟨hu, hclosed, fun name => (hclosed.knows_iff name).symm.trans knows_iff_mem⟩

end Universe

end ApiSurface
