/-
ApiSurface.Proofs.Visibility.Alike — views of universes that tell the same story.

Annotations matter as sets of names: whether one of them is internal, which of them are
shown, and in which order, does not depend on how they are listed (`orderAnnotations_congr`).
So alike universes have the same classification, and views of them decide the same about
records that are alike: about the class, about the annotations on it, and about each of
its members. Members that are not visible from outside are not public in any view, so
the public members of alike records are alike one by one.
-/
import ApiSurface.Proofs.Universe.Alike

namespace ApiSurface

/-! ## 1. Annotations as sets -/

namespace SameNames

variable {names names' : List String} (h : SameNames names names')
include h

theorem any_eq (p : String → Bool) : names.any p = names'.any p := by
  rw [Bool.eq_iff_iff, List.any_eq_true, List.any_eq_true]
  exact exists_congr fun name => and_congr_left fun _ => h name

theorem contains_eq (name : String) : names.contains name = names'.contains name := by
  rw [Bool.eq_iff_iff, List.contains_iff_mem, List.contains_iff_mem]
  exact h name

theorem filter (p : String → Bool) : SameNames (names.filter p) (names'.filter p) := by
  intro name
  rw [List.mem_filter, List.mem_filter, h name]

theorem append {others others' : List String} (ho : SameNames others others') :
    SameNames (names ++ others) (names' ++ others') := by
  intro name
  rw [List.mem_append, List.mem_append, h name, ho name]

/-- The order in which annotations are shown does not depend on how they are listed. -/
theorem orderAnnotations_eq (pinned : Option String) :
    orderAnnotations pinned names = orderAnnotations pinned names' := by
  rw [orderAnnotations, orderAnnotations, Names.sorted_distinct_congr h]

end SameNames

/-- The annotations of alike records are the same. -/
theorem ClassRecord.sameNames_flatMap_annotations {l₁ l₂ : List ClassRecord}
    (h : List.Forall₂ ClassRecord.Alike l₁ l₂) :
    SameNames (l₁.flatMap (·.annotations)) (l₂.flatMap (·.annotations)) := by
  induction h with
  | nil => exact fun _ => Iff.rfl
  | cons hab _ ih =>
    rw [List.flatMap_cons, List.flatMap_cons]
    exact hab.annotations.append ih

/-- Alike records have the same names in the same order. -/
theorem ClassRecord.map_name_eq {l₁ l₂ : List ClassRecord}
    (h : List.Forall₂ ClassRecord.Alike l₁ l₂) : l₁.map (·.name) = l₂.map (·.name) := by
  rw [← List.forall₂_eq_eq_eq]
  exact List.rel_map (fun _ _ hab => hab.name) h

/-- Alike universes have the same classification. -/
theorem Classification.ofUniverse_eq {u₁ u₂ : Universe} (h : u₁.Alike u₂) (m : Markers) :
    ofUniverse u₁ m = ofUniverse u₂ m := by
  have hinternal : internalNames u₁ m = internalNames u₂ m := by
    rw [internalNames, internalNames, ClassRecord.map_name_eq h.annotations]
  have hcarriers := ClassRecord.map_name_eq <|
    List.rel_filter (p := fun r => r.annotations.any (internalNames u₂ m).contains)
      (q := fun r => r.annotations.any (internalNames u₂ m).contains)
      (fun a b hab => by simp only [hab.annotations.any_eq]) h.annotations
  have hinheriting := ClassRecord.map_name_eq <|
    List.rel_filter (p := fun r => r.annotations.contains inheritanceMarker)
      (q := fun r => r.annotations.contains inheritanceMarker)
      (fun a b hab => by simp only [hab.annotations.contains_eq]) h.annotations
  simp only [ofUniverse, hinternal, hcarriers, hinheriting]

/-! ## 2. Classes -/

namespace View

/-- Two views look at alike universes by the same rules. -/
structure Alike (v₁ v₂ : View) : Prop where
  known : v₁.known.Alike v₂.known
  classification : v₁.classification = v₂.classification
  markers : v₁.markers = v₂.markers
  excludedMethods : v₁.excludedMethods = v₂.excludedMethods
  metadata : v₁.metadata = v₂.metadata

end View

/-- The kind of a class is read from its note. -/
theorem Metadata.isSynthetic_eq {r₁ r₂ : ClassRecord} (hr : r₁.Alike r₂) (m : Metadata) :
    m.isSynthetic r₁ = m.isSynthetic r₂ := by
  simp only [isSynthetic, kindOf, hr.note, hr.name]

namespace View

namespace Alike

variable {v₁ v₂ : View} (h : v₁.Alike v₂) {r₁ r₂ : ClassRecord} (hr : r₁.Alike r₂)
include h hr

/-- The same rule speaks against alike classes, if one does, or the last rule fails for the
same cause. -/
theorem exclusionReason?_eq : v₁.exclusionReason? r₁ = v₂.exclusionReason? r₂ := by
  have hdeclared : v₁.declaredReason? r₁ = v₂.declaredReason? r₂ := by
    have hmodifiers : r₁.modifiers = r₂.modifiers := (congrArg ClassRecord.modifiers hr.declared :)
    have henclosing : r₁.enclosing = r₂.enclosing := (congrArg ClassRecord.enclosing hr.declared :)
    have hsynthetic : r₁.isSynthetic = r₂.isSynthetic :=
      (congrArg ClassRecord.isSynthetic hr.declared :)
    rw [declaredReason?, declaredReason?, Classification.hasInternal, Classification.hasInternal,
      h.markers, h.classification, hr.name, hr.isExternal, hr.isAnnotationType,
      hr.annotations.any_eq, hmodifiers, henclosing, hsynthetic]
  simp only [exclusionReason?, hdeclared, h.metadata, Metadata.isSynthetic_eq hr]

theorem includesClass_eq : (v₁.includesClass r₁).outcome = (v₂.includesClass r₂).outcome := by
  rw [includesClass, includesClass, Report.outcome_bind, Report.outcome_bind,
    h.exclusionReason?_eq hr]
  refine bind_congr_ok rfl fun reason? _ => ?_
  cases reason? with
  | none => rfl
  | some reason => split_ifs <;> rfl

/-- A class has the same annotations, however they are listed. -/
theorem effectiveAnnotations : SameNames (v₁.effectiveAnnotations r₁) (v₂.effectiveAnnotations r₂) := by
  have hancestors : List.Forall₂ ClassRecord.Alike (v₁.ancestors r₁) (v₂.ancestors r₂) := by
    rw [ancestors, ancestors, hr.isInterface]
    split_ifs
    · exact h.known.interfaces hr
    · exact List.rel_append (h.known.superclasses hr) (h.known.interfaces hr)
  rw [View.effectiveAnnotations, View.effectiveAnnotations, h.classification]
  exact hr.annotations.append ((ClassRecord.sameNames_flatMap_annotations hancestors).filter _)

theorem classAnnotations_eq : v₁.classAnnotations r₁ = v₂.classAnnotations r₂ := by
  have hnames := (h.effectiveAnnotations hr).filter fun name => !isPlatform name
  simp only [classAnnotations, hr.isAnnotationType, h.classification, h.markers,
    (hnames.filter _).orderAnnotations_eq]

omit hr in
/-- The public ones of alike classes are alike. -/
theorem selectFrom {E : Fault → Fault → Prop} (hE : ∀ why, E why why) {l₁ l₂ : List ClassRecord}
    (hl : List.Forall₂ ClassRecord.Alike l₁ l₂) :
    EndAlike E (List.Forall₂ ClassRecord.Alike) (v₁.selectFrom l₁).outcome
      (v₂.selectFrom l₂).outcome := by
  induction hl with
  | nil => exact .ok .nil
  | @cons r₁ r₂ l₁ l₂ hr _ ih =>
    rw [View.selectFrom, View.selectFrom, Report.outcome_bind, Report.outcome_bind,
      h.includesClass_eq hr]
    refine (EndAlike.refl hE (fun _ => rfl) _).bind (R := Eq) fun included _ hincluded => ?_
    subst hincluded
    rw [Report.outcome_bind, Report.outcome_bind]
    refine ih.bind fun others₁ others₂ hothers => .ok ?_
    cases included with
    | true => exact .cons hr hothers
    | false => exact hothers

omit hr in
/-- The public classes of alike universes are alike, and stand in the same order. -/
theorem includedClasses {E : Fault → Fault → Prop} (hE : ∀ why, E why why) :
    EndAlike E (List.Forall₂ ClassRecord.Alike) v₁.includedClasses.outcome
      v₂.includedClasses.outcome := by
  rw [View.includedClasses, View.includedClasses, Report.outcome_bind, Report.outcome_bind]
  refine (h.selectFrom hE h.known.classes).bind fun l₁ l₂ hl => .ok ?_
  exact forall₂_mergeSort (fun a a' b b' hab hab' => by rw [hab.name, hab'.name]) hl

end Alike

/-! ## 3. Members -/

/-- Members stand in the order of their names, and those of one name in the order of
descriptors. -/
theorem memberLe_iff {a b : Member} :
    memberLe a b = true ↔ a.name < b.name ∨ (a.name = b.name ∧ a.descriptor ≤ b.descriptor) := by
  unfold memberLe
  split
  · next h => simp [h]
  · next h => simp [h]

theorem memberLe_trans (a b c : Member) (hab : memberLe a b = true) (hbc : memberLe b c = true) :
    memberLe a c = true := by
  rw [memberLe_iff] at *
  rcases hab with hab | ⟨hab, hd⟩
  · rcases hbc with hbc | ⟨hbc, -⟩
    · exact .inl (hab.trans hbc)
    · exact .inl (hbc ▸ hab)
  · rcases hbc with hbc | ⟨hbc, hd'⟩
    · exact .inl (hab ▸ hbc)
    · exact .inr ⟨hab.trans hbc, hd.trans hd'⟩

theorem memberLe_total (a b : Member) : (memberLe a b || memberLe b a) = true := by
  rw [Bool.or_eq_true, memberLe_iff, memberLe_iff]
  rcases lt_trichotomy a.name b.name with h | h | h
  · exact .inl (.inl h)
  · exact (le_total a.descriptor b.descriptor).imp (fun hd => .inr ⟨h, hd⟩) fun hd => .inr ⟨h.symm, hd⟩
  · exact .inr (.inl h)

/-- Methods that are not public can be left out before sorting. -/
theorem publicMethods_eq_mergeSort (v : View) (r : ClassRecord) :
    v.publicMethods r =
      (r.methods.filter v.includesMethod).mergeSort fun a b => memberLe a.toMember b.toMember :=
  filter_mergeSort (fun a b c => memberLe_trans a.toMember b.toMember c.toMember)
    (fun a b => memberLe_total a.toMember b.toMember) _ _

/-- Fields that are not public can be left out before sorting. -/
theorem publicFields_eq_mergeSort (v : View) (r : ClassRecord) :
    v.publicFields r =
      (r.fields.filter v.includesField).mergeSort fun a b => memberLe a.toMember b.toMember :=
  filter_mergeSort (fun a b c => memberLe_trans a.toMember b.toMember c.toMember)
    (fun a b => memberLe_total a.toMember b.toMember) _ _

/-- Members that are equal in the order have one name and descriptor. -/
theorem memberLe_antisymm {a b : Member} (hab : memberLe a b = true) (hba : memberLe b a = true) :
    a.name = b.name ∧ a.descriptor = b.descriptor := by
  rw [memberLe_iff] at *
  rcases hab with hab | ⟨hname, hd⟩
  · rcases hba with hba | ⟨hname, -⟩
    · exact absurd hab hba.asymm
    · exact absurd hab (hname ▸ lt_irrefl _)
  · rcases hba with hba | ⟨-, hd'⟩
    · exact absurd hba (hname ▸ lt_irrefl _)
    · exact ⟨hname, hd.antisymm hd'⟩

namespace Alike

variable {v₁ v₂ : View} (h : v₁.Alike v₂)
include h

theorem memberAnnotations_eq {a b : Member} (hab : a.Alike b) :
    v₁.memberAnnotations a = v₂.memberAnnotations b := by
  simp only [View.memberAnnotations, h.classification,
    (hab.annotations.filter _).orderAnnotations_eq]

theorem isEnumConstructor_eq {a b : MethodRecord} (hab : a.Alike b) :
    v₁.isEnumConstructor a = v₂.isEnumConstructor b := by
  have hname : a.name = b.name := (congrArg Member.name hab.declared :)
  have howner : a.owner = b.owner := (congrArg Member.owner hab.declared :)
  have hrecord := h.known.record? b.owner
  rw [isEnumConstructor, isEnumConstructor, MethodRecord.isConstructor, MethodRecord.isConstructor,
    hname, howner]
  generalize v₁.known.record? b.owner = found₁ at hrecord ⊢
  generalize v₂.known.record? b.owner = found₂ at hrecord ⊢
  cases hrecord with
  | none => rfl
  | some hr => simp only [h.known.extends?_eq hr]

theorem includesMethod_eq {a b : MethodRecord} (hab : a.Alike b) :
    v₁.includesMethod a = v₂.includesMethod b := by
  have hname : a.name = b.name := (congrArg Member.name hab.declared :)
  have hdescriptor : a.descriptor = b.descriptor := (congrArg Member.descriptor hab.declared :)
  have hmodifiers : a.modifiers = b.modifiers := (congrArg Member.modifiers hab.declared :)
  have howner : a.owner = b.owner := (congrArg Member.owner hab.declared :)
  simp only [includesMethod, isExcludedMethod, Classification.hasInternal, h.classification,
    h.excludedMethods, hab.annotations.any_eq, h.isEnumConstructor_eq hab, hname, hdescriptor,
    hmodifiers, howner]

theorem includesField_eq {a b : FieldRecord} (hab : a.Alike b) :
    v₁.includesField a = v₂.includesField b := by
  have hmodifiers : a.modifiers = b.modifiers := (congrArg Member.modifiers hab.member.declared :)
  simp only [includesField, Classification.hasInternal, h.classification,
    hab.member.annotations.any_eq, hmodifiers]

omit h in
/-- Public methods are among the visible ones. -/
theorem publicMethods_eq_filter (v : View) (r : ClassRecord) :
    v.publicMethods r = r.visibleMethods.filter v.includesMethod := by
  rw [View.publicMethods, ClassRecord.visibleMethods, List.filter_filter]
  refine List.filter_congr fun m _ => ?_
  simp only [includesMethod]
  cases Flags.isVisible m.modifiers <;> simp

omit h in
/-- Public fields are among the visible ones. -/
theorem publicFields_eq_filter (v : View) (r : ClassRecord) :
    v.publicFields r = r.visibleFields.filter v.includesField := by
  rw [View.publicFields, ClassRecord.visibleFields, List.filter_filter]
  refine List.filter_congr fun f _ => ?_
  simp only [includesField]
  cases Flags.isVisible f.modifiers <;> simp

theorem publicMethods {r₁ r₂ : ClassRecord} (hr : r₁.Alike r₂) :
    List.Forall₂ MethodRecord.Alike (v₁.publicMethods r₁) (v₂.publicMethods r₂) := by
  rw [publicMethods_eq_filter, publicMethods_eq_filter]
  exact List.rel_filter (fun a b hab => by simp only [h.includesMethod_eq hab]) hr.methods

theorem publicFields {r₁ r₂ : ClassRecord} (hr : r₁.Alike r₂) :
    List.Forall₂ FieldRecord.Alike (v₁.publicFields r₁) (v₂.publicFields r₂) := by
  rw [publicFields_eq_filter, publicFields_eq_filter]
  exact List.rel_filter (fun a b hab => by simp only [h.includesField_eq hab]) hr.fields

end Alike

end View

end ApiSurface
