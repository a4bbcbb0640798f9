/-
ApiSurface.Proofs.Scan.CanonicalForm — the order of declarations does not show.

A class file lists its methods, its fields and its annotations in some order, and the
members list their annotations. None of these orders shows: members are sorted before they
are written, annotations are sets of names, and so are the references that lead a scan from
class to class. The condition is that the order has something to decide, that is, that no
two members of one sort have the same name and descriptor and no two annotations of the
class the same type. The order of interfaces may show, and stays as it is.

The entries about nested classes are searched for the first one about the class itself.
Their order does not show either, as long as those entries stay in order.
-/
import ApiSurface.Proofs.Lists
import ApiSurface.Proofs.Scan.Alike

namespace ApiSurface

/-! ## 1. Class files in another order -/

/-- Two methods differ in nothing but the order of their annotations. -/
structure MethodInfo.Reordered (a b : MethodInfo) : Prop where
  declared : { a with annotations := [] } = { b with annotations := [] }
  annotations : a.annotations.Perm b.annotations

/-- Two fields differ in nothing but the order of their annotations. -/
structure FieldInfo.Reordered (a b : FieldInfo) : Prop where
  declared : { a with annotations := [] } = { b with annotations := [] }
  annotations : a.annotations.Perm b.annotations

namespace ClassFile

/-- Two class files differ in nothing but the order of what they declare. Interfaces stay
in order, and so do the entries about the class itself among those about nested classes. -/
structure Reordered (a b : ClassFile) : Prop where
  declared : { a with methods := [], fields := [], annotations := [], innerClasses := [] } =
    { b with methods := [], fields := [], annotations := [], innerClasses := [] }
  methods : Shuffled MethodInfo.Reordered a.methods b.methods
  fields : Shuffled FieldInfo.Reordered a.fields b.fields
  annotations : a.annotations.Perm b.annotations
  innerClasses : a.innerClasses.Perm b.innerClasses
  ownEntries : a.innerClasses.filter (·.inner == a.name) = b.innerClasses.filter (·.inner == a.name)

/-- Members of one sort differ in name or descriptor, and annotations of the class in type. -/
structure HasDistinctNames (c : ClassFile) : Prop where
  methods : (c.methods.map fun m => (m.name, m.descriptor)).Nodup
  fields : (c.fields.map fun f => (f.name, f.descriptor)).Nodup
  annotations : (c.annotations.map (·.type)).Nodup

end ClassFile

/-! ## 2. Their records -/

theorem ClassRecord.sameNames_annotationTypes {l l' : List Annotation} (h : l.Perm l') :
    SameNames (annotationTypes l) (annotationTypes l') := by
  intro name
  rw [mem_annotationTypes, mem_annotationTypes]
  exact exists_congr fun a => and_congr_left fun _ => h.mem_iff

theorem MethodInfo.Reordered.alike {a b : MethodInfo} (h : a.Reordered b) (owner : String) :
    (ClassRecord.methodOf owner a).Alike (ClassRecord.methodOf owner b) where
  declared := (congrArg (fun m => (ClassRecord.methodOf owner m).toMember) h.declared :)
  annotations := ClassRecord.sameNames_annotationTypes h.annotations

theorem FieldInfo.Reordered.alike {a b : FieldInfo} (h : a.Reordered b) (owner : String) :
    (ClassRecord.fieldOf owner a).Alike (ClassRecord.fieldOf owner b) where
  member :=
    { declared := (congrArg (fun f => (ClassRecord.fieldOf owner f).toMember) h.declared :)
      annotations := ClassRecord.sameNames_annotationTypes h.annotations }
  constant := (congrArg FieldInfo.constant h.declared :)

/-- Where no two members are equal in the order of members, sorting puts shuffled ones in the
same order, and those that are visible from outside are alike one by one. -/
theorem Member.forall₂_visible {μ : Type} (member : μ → Member) {R : μ → μ → Prop}
    (halike : ∀ x y, R x y → (member x).Alike (member y)) {l l' : List μ} (h : Shuffled R l l')
    (hdistinct : (l.map fun x => ((member x).name, (member x).descriptor)).Nodup) :
    List.Forall₂ R
      ((l.mergeSort fun x y => View.memberLe (member x) (member y)).filter
        fun x => Flags.isVisible (member x).modifiers)
      ((l'.mergeSort fun x y => View.memberLe (member x) (member y)).filter
        fun x => Flags.isVisible (member x).modifiers) := by
  refine List.rel_filter (fun x y hxy => ?_) (h.mergeSort ?_ ?_ ?_ ?_)
  · have hmodifiers : (member x).modifiers = (member y).modifiers :=
      (congrArg Member.modifiers (halike x y hxy).declared :)
    simp only [hmodifiers]
  · exact fun x y z => View.memberLe_trans _ _ _
  · exact fun x y => View.memberLe_total _ _
  · intro x x' y y' hx hy
    exact (congrArg₂ View.memberLe (halike _ _ hx).declared (halike _ _ hy).declared :)
  · intro x hx y hy hxy hyx
    obtain ⟨hname, hdescriptor⟩ := View.memberLe_antisymm hxy hyx
    exact List.inj_on_of_nodup_map hdistinct hx hy (Prod.ext hname hdescriptor)

namespace ClassFile.Reordered

variable {a b : ClassFile} (h : a.Reordered b)
include h

theorem name : a.name = b.name := (congrArg ClassFile.name h.declared :)

/-- The first entry about the class itself is the same. -/
theorem modifiersOf_eq : ClassRecord.modifiersOf a = ClassRecord.modifiersOf b := by
  have hflags : a.flags = b.flags := (congrArg ClassFile.flags h.declared :)
  have hfirst : a.innerClasses.find? (·.inner == a.name) =
      b.innerClasses.find? (·.inner == b.name) := by
    rw [← List.head?_filter, ← List.head?_filter, h.ownEntries, h.name]
  rw [ClassRecord.modifiersOf, ClassRecord.modifiersOf, hfirst, hflags]

theorem memberAnnotations (isExternal : Bool) :
    SameNames (ClassRecord.ofClassFile isExternal a).memberAnnotations
      (ClassRecord.ofClassFile isExternal b).memberAnnotations := by
  intro name
  rw [ClassRecord.mem_memberAnnotations_ofClassFile, ClassRecord.mem_memberAnnotations_ofClassFile]
  constructor
  · rintro (⟨m, hm, annotation, ha, htype⟩ | ⟨f, hf, annotation, ha, htype⟩)
    · obtain ⟨m', hm', hab⟩ := h.methods.exists_left hm
      exact .inl ⟨m', hm', annotation, hab.annotations.mem_iff.mp ha, htype⟩
    · obtain ⟨f', hf', hab⟩ := h.fields.exists_left hf
      exact .inr ⟨f', hf', annotation, hab.annotations.mem_iff.mp ha, htype⟩
  · rintro (⟨m, hm, annotation, ha, htype⟩ | ⟨f, hf, annotation, ha, htype⟩)
    · obtain ⟨m', hm', hab⟩ := h.methods.exists_right hm
      exact .inl ⟨m', hm', annotation, hab.annotations.mem_iff.mpr ha, htype⟩
    · obtain ⟨f', hf', hab⟩ := h.fields.exists_right hf
      exact .inr ⟨f', hf', annotation, hab.annotations.mem_iff.mpr ha, htype⟩

variable (hdistinct : a.HasDistinctNames)
include hdistinct

theorem visibleMethods (isExternal : Bool) :
    List.Forall₂ MethodRecord.Alike (ClassRecord.ofClassFile isExternal a).visibleMethods
      (ClassRecord.ofClassFile isExternal b).visibleMethods := by
  have hrecords : Shuffled MethodRecord.Alike (a.methods.map (ClassRecord.methodOf a.name))
      (b.methods.map (ClassRecord.methodOf b.name)) := by
    rw [← h.name]
    exact h.methods.map fun _ _ hab => hab.alike a.name
  refine Member.forall₂_visible MethodRecord.toMember (fun _ _ hm => hm) hrecords ?_
  simpa [ClassRecord.ofClassFile, ClassRecord.methodOf, Function.comp_def] using hdistinct.methods

theorem visibleFields (isExternal : Bool) :
    List.Forall₂ FieldRecord.Alike (ClassRecord.ofClassFile isExternal a).visibleFields
      (ClassRecord.ofClassFile isExternal b).visibleFields := by
  have hrecords : Shuffled FieldRecord.Alike (a.fields.map (ClassRecord.fieldOf a.name))
      (b.fields.map (ClassRecord.fieldOf b.name)) := by
    rw [← h.name]
    exact h.fields.map fun _ _ hab => hab.alike a.name
  refine Member.forall₂_visible FieldRecord.toMember (fun _ _ hf => hf.member) hrecords ?_
  simpa [ClassRecord.ofClassFile, ClassRecord.fieldOf, Function.comp_def] using hdistinct.fields

/-- Class files that differ in order have alike records. -/
theorem alike (isExternal : Bool) :
    (ClassRecord.ofClassFile isExternal a).Alike (.ofClassFile isExternal b) where
  declared := by
    have hflags : a.flags = b.flags := (congrArg ClassFile.flags h.declared :)
    have hsuperclass : a.superclass = b.superclass := (congrArg ClassFile.superclass h.declared :)
    have hinterfaces : a.interfaces = b.interfaces := (congrArg ClassFile.interfaces h.declared :)
    have henclosing : a.enclosing = b.enclosing := (congrArg ClassFile.enclosing h.declared :)
    have hsignature : a.signature = b.signature := (congrArg ClassFile.signature h.declared :)
    simp only [ClassRecord.ofClassFile, h.name, h.modifiersOf_eq, hflags, hsuperclass, hinterfaces,
      henclosing, hsignature]
  annotations := ClassRecord.sameNames_annotationTypes h.annotations
  memberAnnotations := h.memberAnnotations isExternal
  methods := h.visibleMethods hdistinct isExternal
  fields := h.visibleFields hdistinct isExternal
  note := by
    rw [ClassRecord.lookup_annotationValues, ClassRecord.lookup_annotationValues,
      find?_eq_of_perm (a.annotations.reverse_perm.trans <|
        h.annotations.trans b.annotations.reverse_perm.symm)]
    intro x hx y hy htx hty
    exact List.inj_on_of_nodup_map hdistinct.annotations (List.mem_reverse.mp hx)
      (List.mem_reverse.mp hy) (by rw [beq_iff_eq.mp htx, beq_iff_eq.mp hty])

/-- The class file of the note declares the same default, whatever the order of methods. -/
theorem metadata?_eq : a.metadata? = b.metadata? := by
  have hfound := h.methods.find?
    (p := fun m => m.name == Fault.kindElement && m.descriptor == Metadata.elementDescriptor)
    (q := fun m => m.name == Fault.kindElement && m.descriptor == Metadata.elementDescriptor)
    (fun m m' hm => by
      have hname : m.name = m'.name := (congrArg MethodInfo.name hm.declared :)
      have hdescriptor : m.descriptor = m'.descriptor :=
        (congrArg MethodInfo.descriptor hm.declared :)
      rw [hname, hdescriptor])
    (fun m hm m' hm' hp hp' => by
      rw [Bool.and_eq_true, beq_iff_eq, beq_iff_eq] at hp hp'
      exact List.inj_on_of_nodup_map hdistinct.methods hm hm'
        (Prod.ext (hp.1.trans hp'.1.symm) (hp.2.trans hp'.2.symm)))
  refine map_eq_of_rel hfound fun m m' hm => ?_
  have hdefault : m.default = m'.default := (congrArg MethodInfo.default hm.declared :)
  rw [hdefault]

end ClassFile.Reordered

/-! ## 3. The text -/

namespace Scan

/-- Scans of class files that differ in nothing but the order of what they declare end
alike: with the same text, or for the same cause. -/
theorem render_reordered {d₁ d₂ : Disk} {home₁ home₂ : Place} {h₁ h₂ : Handle}
    (htarget : h₁.target = h₂.target)
    (htables : (h₁.table d₁ home₁).SameUpTo Eq ClassFile.Reordered (h₂.table d₂ home₂))
    (hdistinct : ∀ name c, (h₁.table d₁ home₁).file? name = some c → c.HasDistinctNames)
    (s : Settings) : (render s d₁ home₁ h₁).outcome = (render s d₂ home₂ h₂).outcome := by
  refine endAlike_eq_iff.mp (renderTable_alike (fun _ => rfl) (fun _ => by rw [htarget])
    (htables.alike ?_ ?_) s)
  · exact fun name a b isExternal ha _ hab => hab.alike (hdistinct name a ha) isExternal
  · exact fun a b ha _ hab => hab.metadata?_eq (hdistinct _ a ha)

namespace MemberSample

/-- The small class with its methods in order, and with its methods swapped. -/
def inOrder : ClassFile := classFile [method 1 "m" "()V", method 1 "n" "()V"]
def swapped : ClassFile := classFile [method 1 "n" "()V", method 1 "m" "()V"]

def bytesInOrder : List UInt8 := bytes [methodBytes 1 3 5, methodBytes 1 4 5]
def bytesSwapped : List UInt8 := bytes [methodBytes 1 4 5, methodBytes 1 3 5]

theorem parse_bytesInOrder : ClassFile.parse bytesInOrder = .ok inOrder := by cbv

theorem parse_bytesSwapped : ClassFile.parse bytesSwapped = .ok swapped := by cbv

theorem reordered : inOrder.Reordered swapped := by
  refine ⟨rfl, ⟨_, .swap _ _ _, ?_⟩, ⟨[], .nil, .nil⟩, .nil, .nil, rfl⟩
  exact List.forall₂_same.mpr fun m _ => ⟨rfl, .refl _⟩

theorem render_bytesInOrder :
    (render (Sample.settings []) (disk bytesInOrder) [] handle).outcome =
      .ok "public abstract class p.A\n  public void m()\n  public void n()\n##\n" :=
  render_eq_ok parse_bytesInOrder (by cbv) fun c => by cbv

end MemberSample

/-- The small class has the same text in both orders of its methods. -/
theorem render_reordered_of_sample :
    (render (Sample.settings []) (MemberSample.disk MemberSample.bytesInOrder) []
        MemberSample.handle).outcome =
      .ok "public abstract class p.A\n  public void m()\n  public void n()\n##\n" ∧
    (render (Sample.settings []) (MemberSample.disk MemberSample.bytesInOrder) []
        MemberSample.handle).outcome =
      (render (Sample.settings []) (MemberSample.disk MemberSample.bytesSwapped) []
        MemberSample.handle).outcome := by
  refine ⟨MemberSample.render_bytesInOrder, render_reordered rfl ?_ ?_ _⟩
  · rw [MemberSample.table_handle MemberSample.parse_bytesInOrder,
      MemberSample.table_handle MemberSample.parse_bytesSwapped]
    exact MemberSample.sameUpTo_table MemberSample.reordered
  · rw [MemberSample.table_handle MemberSample.parse_bytesInOrder]
    intro name c hc
    obtain ⟨-, rfl⟩ := MemberSample.file?_table hc
    exact ⟨by decide, by decide, by decide⟩

end Scan

end ApiSurface
