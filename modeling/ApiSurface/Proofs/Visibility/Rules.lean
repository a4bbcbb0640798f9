/-
ApiSurface.Proofs.Visibility.Rules — the rules for classes as one condition.

The rules are asked in order, but only the reason depends on the order: a class is
published exactly when no rule speaks against it (`publishes_iff`). Where reading
succeeds for all candidates, the published classes are those among them that no
rule speaks against, in the order of their names.

The note on the kind of a class is the last annotation of its type, and
`ClassFile.kind?` is what it says.
-/
import ApiSurface.Proofs.Visibility.Classification
import ApiSurface.Visibility.Rules

namespace ApiSurface

/-! ## 1. The note on the kind of a class -/

/-- The default kind that the annotation type of notes declares, if it is defined and
declares the element. -/
def ClassTable.defaultKind? (t : ClassTable) : Option Value :=
  (t.file? Metadata.annotationName).bind fun c =>
    (c.methods.find? fun m =>
        m.name == Fault.kindElement && m.descriptor == Metadata.elementDescriptor).map fun m =>
      m.default.getD Metadata.fallbackKind

/-- The default kind of classes that a class file declares, if it is that of the note. -/
def ClassFile.metadata? (c : ClassFile) : Option Metadata :=
  (c.methods.find? fun m =>
      m.name == Fault.kindElement && m.descriptor == Metadata.elementDescriptor).map fun m =>
    ⟨m.default.getD Metadata.fallbackKind⟩

theorem lookup_putValue {α : Type} {name key : String} {value : α} {l : List (String × α)} :
    (putValue name value l).lookup key = if key = name then some value else l.lookup key := by
  induction l with
  | nil => by_cases h : key = name <;> simp [putValue, h]
  | cons entry rest ih =>
    obtain ⟨n, v⟩ := entry
    by_cases hn : n = name
    · subst hn
      by_cases h : key = n
      · simp [putValue, h]
      · have hb : (key == n) = false := by simp [h]
        simp [putValue, List.lookup_cons, hb, h]
    · by_cases h : key = n
      · have hk : key ≠ name := fun e => hn (h ▸ e)
        simp [putValue, hn, h]
      · have hb : (key == n) = false := by simp [h]
        simp [putValue, hn, List.lookup_cons, hb, ih]

namespace ClassRecord

/-- Of several annotations of one type the last one gives the element values. -/
theorem lookup_annotationValues {isExternal : Bool} {c : ClassFile} {type : String} :
    (ofClassFile isExternal c).annotationValues.lookup type =
      (c.annotations.reverse.find? (·.type == type)).map (·.values) := by
  have hfold : ∀ (l : List Annotation) (found : List (String × List (String × Value))),
      (l.foldl (fun values a => putValue a.type a.values values) found).lookup type =
        ((l.reverse.find? (·.type == type)).map (·.values)).or (found.lookup type) := by
    intro l
    induction l with
    | nil => intro found; simp
    | cons a rest ih =>
      intro found
      rw [List.foldl_cons, ih, lookup_putValue, List.reverse_cons, List.find?_append]
      cases hr : rest.reverse.find? (·.type == type) with
      | some b => simp
      | none =>
        by_cases ha : a.type = type
        · simp [ha]
        · have ha' : type ≠ a.type := fun e => ha e.symm
          simp [ha, ha']
  simpa [ofClassFile] using hfold c.annotations []

end ClassRecord

namespace Metadata

/-- The metadata of a target are what the class file of the note declares. -/
theorem outcome_resolve (t : ClassTable) :
    (resolve t).outcome = (t.lookUp annotationName).map fun found =>
      found.bind fun loaded => loaded.file.metadata? := by
  rw [resolve, Report.outcome_bind, Report.outcome_ofExcept]
  cases t.lookUp annotationName with
  | error why => rfl
  | ok found =>
    cases found with
    | none => rfl
    | some loaded =>
      simp only [bind, Except.bind, Except.map, Option.bind_some, ClassFile.metadata?]
      cases loaded.file.methods.find? fun m =>
          m.name == Fault.kindElement && m.descriptor == elementDescriptor with
      | none => rfl
      | some element => rfl

/-- The metadata of a target have the default kind that the annotation type declares. -/
theorem resolve_eq_ok {t : ClassTable} {m? : Option Metadata}
    (h : (resolve t).outcome = .ok m?) : m?.map (·.defaultKind) = t.defaultKind? := by
  rw [outcome_resolve, map_eq_ok] at h
  obtain ⟨found, hl, rfl⟩ := h
  rw [ClassTable.defaultKind?, ClassTable.file?, hl]
  cases found with
  | none => rfl
  | some loaded =>
    rw [Option.bind_some, ClassFile.metadata?, Option.map_map]
    rfl

end Metadata

/-! ## 2. Publication -/

namespace Flags

theorem has_eq_false_iff {flags mask : Nat} : has flags mask = false ↔ flags &&& mask = 0 := by
  simp [has]

theorem has_or_right (flags a b : Nat) : has flags (a ||| b) = (has flags a || has flags b) := by
  rw [Bool.eq_iff_iff, ← not_iff_not]
  simp only [Bool.not_eq_true, Bool.or_eq_false_iff, has_eq_false_iff, Nat.and_or_distrib_left,
    Nat.or_eq_zero_iff]

end Flags

namespace View

/-- Whether no rule speaks against a class. -/
def publishes (v : View) (r : ClassRecord) : Bool :=
  match v.exclusionReason? r with
  | .ok none => true
  | _ => false

theorem publishes_eq_true_iff {v : View} {r : ClassRecord} :
    v.publishes r = true ↔ v.exclusionReason? r = .ok none := by
  unfold publishes
  split
  · next h => simp [h]
  · next h => simpa using h

/-- No rule but the last speaks against a class. -/
theorem declaredReason?_eq_none_iff {v : View} {r : ClassRecord} :
    v.declaredReason? r = none ↔
      v.markers.isInternalPackage r.name = false ∧ r.isExternal = false ∧
        (r.isAnnotationType = true → v.classification.shows r.name = true) ∧
        v.classification.hasInternal r.annotations = false ∧
        Flags.isVisible r.modifiers = true ∧ r.enclosing = none ∧ r.isSynthetic = false := by
  have hshown : (r.isAnnotationType && !v.classification.shows r.name) = false ↔
      (r.isAnnotationType = true → v.classification.shows r.name = true) := by
    cases r.isAnnotationType <;> cases v.classification.shows r.name <;> simp
  rw [← hshown, ← Bool.not_eq_false (Flags.isVisible r.modifiers)]
  unfold declaredReason?
  cases v.markers.isInternalPackage r.name
  case true => simp
  cases r.isExternal
  case true => simp
  cases r.isAnnotationType && !v.classification.shows r.name
  case true => simp
  cases v.classification.hasInternal r.annotations
  case true => simp
  cases Flags.isVisible r.modifiers
  case false => simp
  cases r.enclosing with
  | some place => simp
  | none => cases r.isSynthetic <;> simp

/-- What the last rule asks of a class that all others let pass. -/
theorem exclusionReason?_eq_none_iff {v : View} {r : ClassRecord} :
    v.exclusionReason? r = .ok none ↔
      v.declaredReason? r = none ∧ ∀ m, v.metadata = some m → m.isSynthetic r = .ok false := by
  unfold exclusionReason?
  cases hd : v.declaredReason? r with
  | some reason => simp
  | none =>
    cases hm : v.metadata with
    | none => simp
    | some m =>
      cases hs : m.isSynthetic r with
      | error why => simp [hs, Except.map]
      | ok b => cases b <;> simp [hs, Except.map]

theorem includesClass_eq_ok {v : View} {r : ClassRecord} {b : Bool}
    (h : (v.includesClass r).outcome = .ok b) :
    b = v.publishes r ∧ ∃ reason?, v.exclusionReason? r = .ok reason? := by
  obtain ⟨reason?, hr, h⟩ := Report.outcome_bind_eq_ok.mp h
  rw [Report.outcome_ofExcept] at hr
  refine ⟨?_, reason?, hr⟩
  cases reason? with
  | none =>
    cases h
    simp [publishes, hr]
  | some reason =>
    have hp : v.publishes r = false := by simp [publishes, hr]
    by_cases he : r.isExternal = true
    · simp only [he, if_true] at h
      cases h
      exact hp.symm
    · simp only [he] at h
      obtain ⟨_, -, h⟩ := Report.outcome_bind_eq_ok.mp h
      cases h
      exact hp.symm

/-- The selected classes are those that no rule speaks against, and the last rule could
be asked of all. -/
theorem selectFrom_eq_ok {v : View} {records selected : List ClassRecord}
    (h : (v.selectFrom records).outcome = .ok selected) :
    selected = records.filter v.publishes ∧
      ∀ r ∈ records, ∃ reason?, v.exclusionReason? r = .ok reason? := by
  induction records generalizing selected with
  | nil =>
    cases h
    simp
  | cons r rest ih =>
    obtain ⟨included, hi, h⟩ := Report.outcome_bind_eq_ok.mp h
    obtain ⟨others, ho, h⟩ := Report.outcome_bind_eq_ok.mp h
    cases h
    obtain ⟨rfl, hreason⟩ := includesClass_eq_ok hi
    obtain ⟨rfl, hothers⟩ := ih ho
    refine ⟨by rw [List.filter_cons], ?_⟩
    intro r' hr'
    rcases List.mem_cons.mp hr' with rfl | hr'
    · exact hreason
    · exact hothers r' hr'

theorem mem_sortedByName {r : ClassRecord} {records : List ClassRecord} :
    r ∈ sortedByName records ↔ r ∈ records := List.mem_mergeSort

/-- Sorted classes stand in the order of their names. -/
theorem sortedByName_le (records : List ClassRecord) :
    (sortedByName records).Pairwise fun a b => a.name ≤ b.name := by
  have hle : (sortedByName records).Pairwise fun a b => decide (a.name ≤ b.name) = true :=
    List.pairwise_mergeSort
      (fun a b c hab hbc => by
        rw [decide_eq_true_eq] at *
        exact le_trans hab hbc)
      (fun a b => by simpa using le_total a.name b.name) records
  exact hle.imp of_decide_eq_true

/-- Classes with distinct names stand in strict order once sorted. -/
theorem sortedByName_lt {records : List ClassRecord} (h : (records.map (·.name)).Nodup) :
    ((sortedByName records).map (·.name)).Pairwise (· < ·) := by
  have hnodup : ((sortedByName records).map (·.name)).Nodup :=
    (((List.mergeSort_perm records _).map (·.name)).nodup_iff).mpr h
  rw [List.Nodup, List.pairwise_map] at hnodup
  rw [List.pairwise_map]
  exact ((sortedByName_le records).and hnodup).imp fun hab => lt_of_le_of_ne hab.1 hab.2

end View

end ApiSurface
