/-
ApiSurface.Proofs.Visibility.Agreement — two views that agree on some names.

Views agree on a set of names that is closed under references if their records,
and their answers about annotations, are the same for the names of the set. What
a view decides about a class of the set then is the same in both: whether the
class is published, which annotations it takes over and shows, and which of its
members are public.
-/
import ApiSurface.Proofs.Universe.Agreement
import ApiSurface.Proofs.Visibility.Rules

namespace ApiSurface

namespace ClassRecord

variable {r : ClassRecord} {name : String}

theorem mem_references_of_superclass (h : r.superclassName? = some name) :
    (name, .ordinary) ∈ r.references := by
  simp [references, h]

theorem mem_references_of_interface (h : name ∈ r.interfaces) :
    (name, .interface) ∈ r.references := by
  simp [references, h]

theorem mem_references_of_annotation (h : name ∈ r.annotations) :
    (name, .annotationType) ∈ r.references := by
  simp [references, h]

theorem mem_references_of_memberAnnotation (h : name ∈ r.memberAnnotations) :
    (name, .annotationType) ∈ r.references := by
  simp [references, h]

/-- A class without an annotation has no element values of it. -/
theorem lookup_annotationValues_eq_none {isExternal : Bool} {c : ClassFile}
    (h : name ∉ (ofClassFile isExternal c).annotations) :
    (ofClassFile isExternal c).annotationValues.lookup name = none := by
  rw [lookup_annotationValues, Option.map_eq_none_iff, List.find?_eq_none]
  intro a ha ht
  exact h (mem_annotationTypes.mpr ⟨a, List.mem_reverse.mp ha, by simpa using ht⟩)

end ClassRecord

namespace View

/-- Two views agree on names that refer to no others. -/
structure AgreeOn (names : String → Prop) (v₁ v₂ : View) : Prop where
  markers : v₁.markers = v₂.markers
  excludedMethods : v₁.excludedMethods = v₂.excludedMethods
  records : Universe.AgreeOn names v₁.known.records v₂.known.records
  closed : Universe.ClosedOn names v₁.known.records
  internal : ∀ n, names n → (n ∈ v₁.classification.internal ↔ n ∈ v₂.classification.internal)
  shows : ∀ n, names n → v₁.classification.shows n = v₂.classification.shows n
  inherited : ∀ n, names n → (n ∈ v₁.classification.inherited ↔ n ∈ v₂.classification.inherited)
  metadata : names Metadata.annotationName → v₁.metadata = v₂.metadata

namespace AgreeOn

variable {names : String → Prop} {v₁ v₂ : View} (h : AgreeOn names v₁ v₂)
include h

/-! ## 1. Annotations -/

theorem hasInternal_eq {annotations : List String} (ha : ∀ n ∈ annotations, names n) :
    v₁.classification.hasInternal annotations = v₂.classification.hasInternal annotations := by
  rw [Bool.eq_iff_iff, Classification.hasInternal_iff, Classification.hasInternal_iff]
  constructor
  · rintro ⟨n, hn, hi⟩
    exact ⟨n, hn, (h.internal n (ha n hn)).mp hi⟩
  · rintro ⟨n, hn, hi⟩
    exact ⟨n, hn, (h.internal n (ha n hn)).mpr hi⟩

theorem filter_shows_eq {annotations : List String} (ha : ∀ n ∈ annotations, names n) :
    annotations.filter v₁.classification.shows = annotations.filter v₂.classification.shows :=
  List.filter_congr fun n hn => h.shows n (ha n hn)

theorem filter_inherited_eq {annotations : List String} (ha : ∀ n ∈ annotations, names n) :
    annotations.filter v₁.classification.inherited.contains =
      annotations.filter v₂.classification.inherited.contains := by
  refine List.filter_congr fun n hn => ?_
  rw [Bool.eq_iff_iff, List.contains_iff_mem, List.contains_iff_mem]
  exact h.inherited n (ha n hn)

/-! ## 2. The hierarchy -/

variable {r : ClassRecord} (hr : ∀ q ∈ r.references, names q.1)
include hr

theorem superclasses_eq :
    (v₁.known.superclasses r).map (·.unscoped) = (v₂.known.superclasses r).map (·.unscoped) :=
  Universe.superclassesFrom_agree (h.records.without r.name) (h.closed.without r.name)
    fun n hn => hr (n, .ordinary) (ClassRecord.mem_references_of_superclass hn)

omit h in
/-- Superclasses refer to names of the set. -/
theorem references_of_mem_superclasses (hclosed : Universe.ClosedOn names v₁.known.records)
    {r' : ClassRecord} (hr' : r' ∈ v₁.known.superclasses r) : ∀ q ∈ r'.references, names q.1 :=
  Universe.references_of_mem_superclassesFrom (hclosed.without r.name)
    (fun n hn => hr (n, .ordinary) (ClassRecord.mem_references_of_superclass hn)) hr'

omit h in
/-- The names at which the walk through interfaces starts are in the set. -/
theorem names_of_mem_roots (hclosed : Universe.ClosedOn names v₁.known.records) {n : String}
    (hn : n ∈ (if r.isInterface then [r] else r :: v₁.known.superclasses r).flatMap
      (·.interfaces)) : names n := by
  obtain ⟨root, hroot, hn⟩ := List.mem_flatMap.mp hn
  have hrefs : ∀ q ∈ root.references, names q.1 := by
    split_ifs at hroot
    · cases List.mem_singleton.mp hroot
      exact hr
    · rcases List.mem_cons.mp hroot with rfl | hroot
      · exact hr
      · exact references_of_mem_superclasses hr hclosed hroot
  exact hrefs (n, .interface) (ClassRecord.mem_references_of_interface hn)

theorem interfaces_eq :
    (v₁.known.interfaces r).map (·.unscoped) = (v₂.known.interfaces r).map (·.unscoped) := by
  have hroots : (if r.isInterface then [r] else r :: v₁.known.superclasses r).flatMap
        (·.interfaces) =
      (if r.isInterface then [r] else r :: v₂.known.superclasses r).flatMap (·.interfaces) := by
    have hs := congrArg (List.flatMap ClassRecord.interfaces) (h.superclasses_eq hr)
    simp only [List.flatMap_map] at hs
    split_ifs
    · rfl
    · rw [List.flatMap_cons, List.flatMap_cons]
      exact congrArg (r.interfaces ++ ·) hs
  unfold Universe.interfaces
  rw [Universe.interfacesFrom_agree (h.records.without r.name) (h.closed.without r.name)
    fun n hn => names_of_mem_roots hr h.closed hn, hroots]

theorem ancestors_eq :
    (v₁.ancestors r).map (·.unscoped) = (v₂.ancestors r).map (·.unscoped) := by
  unfold ancestors
  split_ifs
  · exact h.interfaces_eq hr
  · rw [List.map_append, List.map_append, h.superclasses_eq hr, h.interfaces_eq hr]

/-- The annotations of ancestors are in the set. -/
theorem names_of_mem_ancestors {r' : ClassRecord} (hr' : r' ∈ v₁.ancestors r) {n : String}
    (hn : n ∈ r'.annotations) : names n := by
  have hinterfaces : ∀ i ∈ v₁.known.interfaces r, ∀ q ∈ i.references, names q.1 := fun i hi =>
    Universe.references_of_mem_interfacesFrom (h.closed.without r.name)
      (fun n hn => names_of_mem_roots hr h.closed hn) hi
  have hrefs : ∀ q ∈ r'.references, names q.1 := by
    unfold ancestors at hr'
    split_ifs at hr'
    · exact hinterfaces r' hr'
    · rcases List.mem_append.mp hr' with hr' | hr'
      · exact references_of_mem_superclasses hr h.closed hr'
      · exact hinterfaces r' hr'
  exact hrefs (n, .annotationType) (ClassRecord.mem_references_of_annotation hn)

/-! ## 3. Decisions -/

/-- A class takes over the same annotations. -/
theorem effectiveAnnotations_eq : v₁.effectiveAnnotations r = v₂.effectiveAnnotations r := by
  have ha := congrArg (List.flatMap ClassRecord.annotations) (h.ancestors_eq hr)
  simp only [List.flatMap_map] at ha
  have ha' : (v₁.ancestors r).flatMap (·.annotations) = (v₂.ancestors r).flatMap (·.annotations) :=
    ha
  rw [effectiveAnnotations, effectiveAnnotations, ← ha', h.filter_inherited_eq]
  intro n hn
  obtain ⟨r', hr', hn⟩ := List.mem_flatMap.mp hn
  exact h.names_of_mem_ancestors hr hr' hn

/-- All annotations that a class has, its own and others, are in the set. -/
theorem names_of_mem_effectiveAnnotations {n : String} (hn : n ∈ v₁.effectiveAnnotations r) :
    names n := by
  rcases List.mem_append.mp hn with hn | hn
  · exact hr (n, .annotationType) (ClassRecord.mem_references_of_annotation hn)
  · obtain ⟨r', hr', hn⟩ := List.mem_flatMap.mp (List.mem_filter.mp hn).1
    exact h.names_of_mem_ancestors hr hr' hn

/-- A class shows the same annotations. -/
theorem visibleAnnotations_eq : (v₁.classAnnotations r).visible = (v₂.classAnnotations r).visible := by
  unfold classAnnotations
  split_ifs
  · rfl
  · dsimp only
    rw [← h.effectiveAnnotations_eq hr, h.markers, h.filter_shows_eq]
    exact fun n hn => h.names_of_mem_effectiveAnnotations hr (List.mem_filter.mp hn).1

/-- The rules before the last one speak against a class in both views or in none. -/
theorem declaredReason?_eq (hname : names r.name) : v₁.declaredReason? r = v₂.declaredReason? r := by
  have ha : ∀ n ∈ r.annotations, names n := fun n hn =>
    hr (n, .annotationType) (ClassRecord.mem_references_of_annotation hn)
  unfold declaredReason?
  rw [h.markers, h.shows r.name hname, h.hasInternal_eq ha]

/-- A class is published in both views or in none. The last rule reads metadata only for
a class that carries the note, and then the annotation type of notes is in the set. -/
theorem publishes_eq (hname : names r.name)
    (hvalues : Metadata.annotationName ∉ r.annotations →
      r.annotationValues.lookup Metadata.annotationName = none) :
    v₁.publishes r = v₂.publishes r := by
  rw [Bool.eq_iff_iff, publishes_eq_true_iff, publishes_eq_true_iff, exclusionReason?_eq_none_iff,
    exclusionReason?_eq_none_iff, h.declaredReason?_eq hr hname]
  refine and_congr_right fun _ => ?_
  by_cases hnote : Metadata.annotationName ∈ r.annotations
  · rw [h.metadata (hr (_, .annotationType) (ClassRecord.mem_references_of_annotation hnote))]
  · have hkind : ∀ m : Metadata, m.isSynthetic r = .ok false := fun m => by
      simp only [Metadata.isSynthetic, Metadata.kindOf, hvalues hnote]
      rfl
    exact iff_of_true (fun m _ => hkind m) (fun m _ => hkind m)

/-! ## 4. Members -/

/-- The class extends another in both views or in none. -/
theorem extends?_eq (base : String) : v₁.known.extends? r base = v₂.known.extends? r base := by
  have hs := congrArg (List.any · (·.name == base)) (h.superclasses_eq hr)
  simp only [List.any_map] at hs
  exact hs

theorem includesMethod_eq (hrec₁ : v₁.known.record? r.name = some r)
    (hrec₂ : v₂.known.record? r.name = some r) {m : MethodRecord} (hm : m ∈ r.methods)
    (howner : m.owner = r.name) : v₁.includesMethod m = v₂.includesMethod m := by
  have ha : ∀ n ∈ m.annotations, names n := fun n hn => by
    refine hr (n, .annotationType) (ClassRecord.mem_references_of_memberAnnotation ?_)
    exact List.mem_append_left _ (List.mem_flatMap.mpr ⟨m, hm, hn⟩)
  unfold includesMethod isExcludedMethod isEnumConstructor
  rw [h.excludedMethods, h.hasInternal_eq ha, howner, hrec₁, hrec₂]
  simp only [h.extends?_eq hr]

theorem publicMethods_eq (hrec₁ : v₁.known.record? r.name = some r)
    (hrec₂ : v₂.known.record? r.name = some r) (howner : ∀ m ∈ r.methods, m.owner = r.name) :
    v₁.publicMethods r = v₂.publicMethods r := by
  refine List.filter_congr fun m hm => ?_
  have hm' := List.mem_mergeSort.mp hm
  exact h.includesMethod_eq hr hrec₁ hrec₂ hm' (howner m hm')

theorem publicFields_eq : v₁.publicFields r = v₂.publicFields r := by
  refine List.filter_congr fun f hf => ?_
  have ha : ∀ n ∈ f.annotations, names n := fun n hn => by
    refine hr (n, .annotationType) (ClassRecord.mem_references_of_memberAnnotation ?_)
    exact List.mem_append_right _ (List.mem_flatMap.mpr ⟨f, List.mem_mergeSort.mp hf, hn⟩)
  unfold includesField
  rw [h.hasInternal_eq ha]

omit hr in
/-- A member shows the same annotations. -/
theorem memberAnnotations_eq {m : Member} (ha : ∀ n ∈ m.annotations, names n) :
    (v₁.memberAnnotations m).visible = (v₂.memberAnnotations m).visible := by
  unfold memberAnnotations
  dsimp only
  rw [h.filter_shows_eq ha]

end AgreeOn

end View

end ApiSurface
