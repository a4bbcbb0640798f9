/-
ApiSurface.Proofs.Visibility.Kinds — for which classes the note on kinds is read.

The rule that reads the note is the last one, so a note that cannot be read matters only on a
class that every other rule lets pass (`exclusionReason?_eq_error_iff`). Whether the public
classes are found depends on no order then: they are, unless the note on one of these
candidates holds something else than an integer. If there are several such candidates, the
first of them is blamed.

`View.LetsPass` and `Metadata.noted?` say what the other rules ask and what the note holds,
without an order of rules.
-/
import ApiSurface.Proofs.Lists
import ApiSurface.Proofs.Outcome
import ApiSurface.Proofs.Visibility.Rules

namespace ApiSurface

/-! ## 1. The note of a class -/

namespace Metadata

/-- The kind that the note on a class holds, or the default kind where the note does not tell
it. A class without a note has none. -/
def noted? (m : Metadata) (r : ClassRecord) : Option Value :=
  (r.annotationValues.lookup annotationName).map fun values =>
    (values.lookup Fault.kindElement).getD m.defaultKind

variable {m : Metadata} {r : ClassRecord}

/-- The kind cannot be read if the note holds no integer. -/
theorem isSynthetic_eq_error_iff {why : Fault} :
    m.isSynthetic r = .error why ↔
      ∃ kind, m.noted? r = some kind ∧ (∀ n, kind ≠ .integer n) ∧
        why = .unreadableKind r.name kind := by
  unfold isSynthetic kindOf noted?
  cases r.annotationValues.lookup annotationName with
  | none => simp [Except.map]
  | some values =>
    cases hkind : (values.lookup Fault.kindElement).getD m.defaultKind with
    | integer n => simp [hkind, Except.map]
    | _ => simp [hkind, Except.map, eq_comm]

/-- A class has a counterpart in source text if it has no note, or the note holds an integer
that is another than that of synthetic classes. -/
theorem isSynthetic_eq_false_iff :
    m.isSynthetic r = .ok false ↔
      ∀ kind, m.noted? r = some kind → ∃ n, kind = .integer n ∧ n ≠ syntheticKind := by
  unfold isSynthetic kindOf noted?
  cases r.annotationValues.lookup annotationName with
  | none => simp [Except.map, syntheticKind]
  | some values =>
    cases hkind : (values.lookup Fault.kindElement).getD m.defaultKind with
    | integer n => simp [hkind, Except.map]
    | _ => simp [hkind, Except.map]

end Metadata

/-! ## 2. One class -/

namespace View

variable {v : View} {r : ClassRecord}

/-- Every rule but the one on the note lets a class pass. -/
structure LetsPass (v : View) (r : ClassRecord) : Prop where
  package : ¬ v.markers.internalPackage.toList <:+: r.name.toList
  own : r.isExternal = false
  /-- An annotation type is one of those that are shown. -/
  shown : r.kind = .annotationType → r.name ∉ v.classification.invisible
  unmarked : ∀ a ∈ r.annotations, a ∉ v.classification.internal
  visible : Flags.has r.modifiers Flags.isPublic = true ∨
    Flags.has r.modifiers Flags.isProtected = true
  notLocal : r.enclosing = none
  notSynthetic : r.isSynthetic = false

theorem declaredReason?_eq_none_iff_letsPass : v.declaredReason? r = none ↔ v.LetsPass r := by
  have hpackage : v.markers.isInternalPackage r.name = false ↔
      ¬ v.markers.internalPackage.toList <:+: r.name.toList := by
    rw [← Markers.isInternalPackage_iff, Bool.not_eq_true]
  have hshown : (r.isAnnotationType = true → v.classification.shows r.name = true) ↔
      (r.kind = .annotationType → r.name ∉ v.classification.invisible) := by
    rw [Classification.shows_eq_true_iff, ClassRecord.isAnnotationType, decide_eq_true_iff]
  have hmarked : v.classification.hasInternal r.annotations = false ↔
      ∀ a ∈ r.annotations, a ∉ v.classification.internal := by
    rw [Bool.eq_false_iff, Ne, Classification.hasInternal_iff]
    simp
  have hvisible : Flags.isVisible r.modifiers = true ↔
      Flags.has r.modifiers Flags.isPublic = true ∨
        Flags.has r.modifiers Flags.isProtected = true := by
    rw [Flags.isVisible, Flags.visibilityMask, Flags.has_or_right, Bool.or_eq_true]
  rw [declaredReason?_eq_none_iff, hpackage, hshown, hmarked, hvisible]
  constructor
  · rintro ⟨package, own, shown, unmarked, visible, notLocal, notSynthetic⟩
    exact ⟨package, own, shown, unmarked, visible, notLocal, notSynthetic⟩
  · intro h
    exact ⟨h.package, h.own, h.shown, h.unmarked, h.visible, h.notLocal, h.notSynthetic⟩

/-- The note on a class is read, and holds something that is no integer. -/
def FailsOn (v : View) (r : ClassRecord) (kind : Value) : Prop :=
  v.LetsPass r ∧ (∃ m, v.metadata = some m ∧ m.noted? r = some kind) ∧ ∀ n, kind ≠ .integer n

/-- Asking for a reason fails only at the note. -/
theorem exclusionReason?_eq_error_iff {why : Fault} :
    v.exclusionReason? r = .error why ↔
      ∃ kind, v.FailsOn r kind ∧ why = .unreadableKind r.name kind := by
  unfold exclusionReason? FailsOn
  rw [← declaredReason?_eq_none_iff_letsPass]
  cases v.declaredReason? r with
  | some reason => simp
  | none =>
    cases v.metadata with
    | none => simp
    | some m =>
      dsimp only
      rw [map_eq_error, Metadata.isSynthetic_eq_error_iff]
      simp [and_assoc]

/-- There is a reason, or none, unless asking for it fails. -/
theorem exists_exclusionReason?_iff :
    (∃ reason?, v.exclusionReason? r = .ok reason?) ↔ ∀ kind, ¬ v.FailsOn r kind := by
  cases h : v.exclusionReason? r with
  | ok reason? =>
    refine ⟨fun _ kind hkind => ?_, fun _ => ⟨reason?, rfl⟩⟩
    have herror := exclusionReason?_eq_error_iff.mpr ⟨kind, hkind, rfl⟩
    rw [h] at herror
    cases herror
  | error why =>
    obtain ⟨kind, hkind, -⟩ := exclusionReason?_eq_error_iff.mp h
    exact ⟨nofun, fun hno => absurd hkind (hno kind)⟩

/-- A class is public if the other rules let it pass and it is not of the synthetic kind. -/
theorem publishes_iff_letsPass (h : ∀ kind, ¬ v.FailsOn r kind) :
    v.publishes r = true ↔
      v.LetsPass r ∧ ∀ m, v.metadata = some m →
        m.noted? r ≠ some (.integer Metadata.syntheticKind) := by
  rw [publishes_eq_true_iff, exclusionReason?_eq_none_iff, declaredReason?_eq_none_iff_letsPass]
  refine and_congr_right fun hpass => forall₂_congr fun m hm => ?_
  rw [Metadata.isSynthetic_eq_false_iff]
  constructor
  · intro hkinds hnoted
    obtain ⟨n, hn, hne⟩ := hkinds _ hnoted
    cases hn
    exact hne rfl
  · intro hnoted kind hkind
    by_contra hno
    refine h kind ⟨hpass, ⟨m, hm, hkind⟩, fun n hn => hno ⟨n, hn, ?_⟩⟩
    rintro rfl
    exact hnoted (hn ▸ hkind)

/-! ## 3. All candidates -/

theorem outcome_includesClass (v : View) (r : ClassRecord) :
    (v.includesClass r).outcome = (v.exclusionReason? r).map (·.isNone) := by
  rw [includesClass, Report.outcome_bind, Report.outcome_ofExcept]
  cases v.exclusionReason? r with
  | error why => rfl
  | ok reason? =>
    cases reason? with
    | none => rfl
    | some reason =>
      simp only [bind, Except.bind]
      split_ifs <;> rfl

/-- The selected classes are the public ones, where a reason can be asked for on every class. -/
theorem outcome_selectFrom (v : View) (records : List ClassRecord) :
    (v.selectFrom records).outcome =
      (records.mapM v.exclusionReason?).map fun _ => records.filter v.publishes := by
  induction records with
  | nil => rfl
  | cons r rest ih =>
    have hpublishes : ∀ reason?, v.exclusionReason? r = .ok reason? →
        v.publishes r = reason?.isNone := by
      intro reason? h
      cases reason? <;> simp [publishes, h]
    simp only [selectFrom, Report.outcome_bind, outcome_includesClass, ih, List.mapM_cons,
      List.filter_cons]
    cases hreason : v.exclusionReason? r with
    | error why => rfl
    | ok reason? =>
      rw [hpublishes reason? hreason]
      cases rest.mapM v.exclusionReason? <;> rfl

theorem outcome_includedClasses (v : View) :
    v.includedClasses.outcome =
      (v.known.classes.mapM v.exclusionReason?).map fun _ =>
        sortedByName (v.known.classes.filter v.publishes) := by
  rw [includedClasses, Report.outcome_bind, outcome_selectFrom]
  cases v.known.classes.mapM v.exclusionReason? <;> rfl

/-- Records of one name stay in the order in which they are listed. -/
theorem filter_sortedByName (name : String) (records : List ClassRecord) :
    (sortedByName records).filter (·.name == name) = records.filter (·.name == name) := by
  rw [sortedByName, filter_mergeSort]
  · refine List.mergeSort_of_pairwise (List.pairwise_of_forall_mem_list fun a ha b hb => ?_)
    rw [List.mem_filter, beq_iff_eq] at ha hb
    simp [ha.2, hb.2]
  · intro a b c hab hbc
    rw [decide_eq_true_eq] at *
    exact le_trans hab hbc
  · exact fun a b => by simpa using le_total a.name b.name

/-- A candidate that is blamed for its note is the first whose note holds no integer. -/
theorem exists_first_of_unreadable {name : String} {kind : Value}
    (h : v.includedClasses.outcome = .error (.unreadableKind name kind)) :
    ∃ before r after, v.known.classes = before ++ r :: after ∧
      v.FailsOn r kind ∧ r.name = name ∧ ∀ b ∈ before, ∀ other, ¬ v.FailsOn b other := by
  rw [outcome_includedClasses, map_eq_error] at h
  obtain ⟨before, r, after, hclasses, hbefore, hr⟩ := exists_of_mapM_eq_error h
  obtain ⟨_, hkind, hcause⟩ := exclusionReason?_eq_error_iff.mp hr
  cases hcause
  exact ⟨before, r, after, hclasses, hkind, rfl,
    fun b hb => exists_exclusionReason?_iff.mp (hbefore b hb)⟩

/-- Some candidate is blamed for its note where one can be blamed. -/
theorem exists_unreadable_of_failsOn {r : ClassRecord} (hr : r ∈ v.known.classes) {kind : Value}
    (hkind : v.FailsOn r kind) :
    ∃ name kind, v.includedClasses.outcome = .error (.unreadableKind name kind) := by
  cases h : v.known.classes.mapM v.exclusionReason? with
  | ok reasons =>
    have hreason := exists_mapM_eq_ok_iff.mp ⟨reasons, h⟩ r hr
    exact absurd hkind (exists_exclusionReason?_iff.mp hreason kind)
  | error why =>
    obtain ⟨_, cause, _, -, -, hcause⟩ := exists_of_mapM_eq_error h
    obtain ⟨other, -, rfl⟩ := exclusionReason?_eq_error_iff.mp hcause
    exact ⟨cause.name, other, by rw [outcome_includedClasses, map_eq_error, h]⟩

/-- Where no candidate can be blamed, the public ones are found, in the order of their names. -/
theorem outcome_includedClasses_of_readable
    (h : ∀ r ∈ v.known.classes, ∀ kind, ¬ v.FailsOn r kind) :
    v.includedClasses.outcome = .ok (sortedByName (v.known.classes.filter v.publishes)) := by
  obtain ⟨reasons, hreasons⟩ := exists_mapM_eq_ok_iff.mpr fun r hr =>
    exists_exclusionReason?_iff.mpr (h r hr)
  rw [outcome_includedClasses, hreasons]
  rfl

/-- The public classes are found unless there is a candidate that every other rule lets pass
and whose note holds no integer; the first such candidate is blamed. They are the candidates
that every other rule lets pass and whose note does not hold the synthetic kind, in the order
of their names, and those of one name in the order of the candidates. -/
theorem includedClasses_fails_iff (v : View) :
    ((∃ name kind, v.includedClasses.outcome = .error (.unreadableKind name kind)) ↔
      ∃ r ∈ v.known.classes, ∃ kind, v.FailsOn r kind) ∧
    (∀ name kind, v.includedClasses.outcome = .error (.unreadableKind name kind) →
      ∃ before r after, v.known.classes = before ++ r :: after ∧
        v.FailsOn r kind ∧ r.name = name ∧ ∀ b ∈ before, ∀ other, ¬ v.FailsOn b other) ∧
    ((∀ r ∈ v.known.classes, ∀ kind, ¬ v.FailsOn r kind) →
      ∃ classes, v.includedClasses.outcome = .ok classes ∧
        (∀ r ∈ v.known.classes, v.publishes r = true ↔
          v.LetsPass r ∧ ∀ m, v.metadata = some m →
            m.noted? r ≠ some (.integer Metadata.syntheticKind)) ∧
        classes.Perm (v.known.classes.filter v.publishes) ∧
        classes.Pairwise (fun a b => a.name ≤ b.name) ∧
        ∀ name, classes.filter (·.name == name) =
          (v.known.classes.filter v.publishes).filter (·.name == name)) := by
  refine ⟨⟨?_, ?_⟩, fun _ _ => exists_first_of_unreadable,
    fun hnone => ⟨_, outcome_includedClasses_of_readable hnone, ?_, ?_, ?_, ?_⟩⟩
  · rintro ⟨name, kind, h⟩
    obtain ⟨before, r, after, hclasses, hkind, -⟩ := exists_first_of_unreadable h
    exact ⟨r, hclasses ▸ List.mem_append_right before List.mem_cons_self, kind, hkind⟩
  · rintro ⟨r, hr, kind, hkind⟩
    exact exists_unreadable_of_failsOn hr hkind
  · exact fun r hr => publishes_iff_letsPass (hnone r hr)
  · exact List.mergeSort_perm _ _
  · exact sortedByName_le _
  · exact fun name => filter_sortedByName name _

namespace KindSample

/-- A class with a note that holds some kind. -/
def noted (name : String) (modifiers : Nat) (kind : Value) : ClassRecord :=
  { ClassRecord.placeholder name .ordinary with
    modifiers := modifiers
    isExternal := false
    annotationValues := [(Metadata.annotationName, [(Fault.kindElement, kind)])] }

/-- A view of some classes, all of them candidates, where the note is defined. -/
def view (records : List ClassRecord) : View where
  known := {
    records := records.map fun r => (r.name, r)
    candidates := records.map (·.name)
    recorded := fun name h => lookup_isSome_iff_mem.mpr (by simpa [List.map_map] using h) }
  classification := ⟨[], [], []⟩
  markers := .standard
  excludedMethods := []
  metadata := some ⟨Metadata.fallbackKind⟩

theorem letsPass_noted (records : List ClassRecord) (kind : Value) :
    (view records).LetsPass (noted "p.A" 1 kind) where
  package := by
    have hpackage : ¬ Markers.standard.internalPackage.toList <:+: "p.A".toList := by decide
    exact hpackage
  own := rfl
  shown := nofun
  unmarked := nofun
  visible := by
    have hpublic : Flags.has 1 Flags.isPublic = true := by decide
    exact .inl hpublic
  notLocal := rfl
  notSynthetic := rfl

end KindSample

open KindSample in
/-- A truth value in the note of a public class is a fault. In that of a class which is not
public it is none. -/
theorem includedClasses_fails_iff_of_sample :
    (∃ name kind, (view [noted "p.A" 1 (.boolean true)]).includedClasses.outcome =
      .error (.unreadableKind name kind)) ∧
    ∃ classes,
      (view [noted "p.B" 0 (.boolean true), noted "p.A" 1 (.integer 1)]).includedClasses.outcome =
        .ok classes ∧
      classes.Perm [noted "p.A" 1 (.integer 1)] := by
  constructor
  · refine (includedClasses_fails_iff _).1.mpr ⟨_, List.mem_cons_self, .boolean true, ?_⟩
    exact ⟨letsPass_noted _ _, ⟨_, rfl, rfl⟩, nofun⟩
  · have hnone : ∀ r ∈ [noted "p.B" 0 (.boolean true), noted "p.A" 1 (.integer 1)], ∀ kind,
        ¬ (view [noted "p.B" 0 (.boolean true), noted "p.A" 1 (.integer 1)]).FailsOn r kind := by
      simp only [List.forall_mem_cons]
      refine ⟨fun kind h => ?_, fun kind h => ?_, nofun⟩
      · exact absurd h.1.visible (by decide)
      · obtain ⟨m, hm, hkind⟩ := h.2.1
        cases hm
        cases hkind
        exact h.2.2 1 rfl
    obtain ⟨classes, hclasses, -, hperm, -⟩ :=
      (includedClasses_fails_iff
        (view [noted "p.B" 0 (.boolean true), noted "p.A" 1 (.integer 1)])).2.2 hnone
    exact ⟨classes, hclasses, hperm⟩

end View

end ApiSurface
