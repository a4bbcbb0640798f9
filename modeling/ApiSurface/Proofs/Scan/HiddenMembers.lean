/-
ApiSurface.Proofs.Scan.HiddenMembers — members that are no part of the interface do not
influence the text.

A method or field that is neither public nor protected is looked at all the same: it is in
the lists that are sorted and searched, its annotations are references that a scan follows,
and its descriptor may be malformed. Two scans of class files with the same visible members
end alike all the same, if the annotations on members are of the same types altogether, and
if the class file of the note on kinds is the same: its element is searched among all of
its methods, visible or not.
-/
import ApiSurface.Proofs.Lists
import ApiSurface.Proofs.Scan.Alike

namespace ApiSurface

/-! ## 1. Class files with the same visible members -/

namespace ClassFile

/-- The types of the annotations on members, visible or not. -/
def memberAnnotationTypes (c : ClassFile) : List String :=
  c.methods.flatMap (·.annotations.map (·.type)) ++ c.fields.flatMap (·.annotations.map (·.type))

/-- Two class files differ in nothing but members that are neither public nor protected,
and the members carry annotations of the same types altogether. -/
structure SameSurface (a b : ClassFile) : Prop where
  declared : { a with methods := [], fields := [] } = { b with methods := [], fields := [] }
  methods : a.methods.filter (fun m => Flags.has m.flags (Flags.isPublic ||| Flags.isProtected)) =
    b.methods.filter fun m => Flags.has m.flags (Flags.isPublic ||| Flags.isProtected)
  fields : a.fields.filter (fun f => Flags.has f.flags (Flags.isPublic ||| Flags.isProtected)) =
    b.fields.filter fun f => Flags.has f.flags (Flags.isPublic ||| Flags.isProtected)
  memberAnnotations : SameNames a.memberAnnotationTypes b.memberAnnotationTypes

end ClassFile

/-! ## 2. Their records -/

namespace ClassRecord

variable {isExternal : Bool} {c : ClassFile}

theorem mem_memberAnnotations_iff {name : String} :
    name ∈ (ofClassFile isExternal c).memberAnnotations ↔ name ∈ c.memberAnnotationTypes := by
  rw [mem_memberAnnotations_ofClassFile]
  simp [ClassFile.memberAnnotationTypes]

/-- The hidden methods can be left out before sorting. -/
theorem visibleMethods_ofClassFile :
    (ofClassFile isExternal c).visibleMethods =
      ((c.methods.filter (Flags.isVisible ·.flags)).map (methodOf c.name)).mergeSort
        fun a b => View.memberLe a.toMember b.toMember := by
  rw [visibleMethods, filter_mergeSort, ofClassFile, List.filter_map]
  · rfl
  · exact fun _ _ _ => View.memberLe_trans _ _ _
  · exact fun _ _ => View.memberLe_total _ _

/-- The hidden fields can be left out before sorting. -/
theorem visibleFields_ofClassFile :
    (ofClassFile isExternal c).visibleFields =
      ((c.fields.filter (Flags.isVisible ·.flags)).map (fieldOf c.name)).mergeSort
        fun a b => View.memberLe a.toMember b.toMember := by
  rw [visibleFields, filter_mergeSort, ofClassFile, List.filter_map]
  · rfl
  · exact fun _ _ _ => View.memberLe_trans _ _ _
  · exact fun _ _ => View.memberLe_total _ _

end ClassRecord

/-- Class files with the same visible members have alike records. -/
theorem ClassFile.SameSurface.alike {a b : ClassFile} (h : a.SameSurface b) (isExternal : Bool) :
    (ClassRecord.ofClassFile isExternal a).Alike (.ofClassFile isExternal b) where
  declared := (congrArg (fun c => { ClassRecord.ofClassFile isExternal c with
    annotations := [], methods := [], fields := [], annotationValues := [] }) h.declared :)
  annotations name := by
    have hannotations : (ClassRecord.ofClassFile isExternal a).annotations =
        (ClassRecord.ofClassFile isExternal b).annotations :=
      (congrArg (fun c => (ClassRecord.ofClassFile isExternal c).annotations) h.declared :)
    rw [hannotations]
  memberAnnotations name := by
    rw [ClassRecord.mem_memberAnnotations_iff, ClassRecord.mem_memberAnnotations_iff,
      h.memberAnnotations name]
  methods := by
    have hname : a.name = b.name := (congrArg ClassFile.name h.declared :)
    have hmethods : a.methods.filter (Flags.isVisible ·.flags) =
        b.methods.filter (Flags.isVisible ·.flags) := h.methods
    rw [ClassRecord.visibleMethods_ofClassFile, ClassRecord.visibleMethods_ofClassFile, hname,
      hmethods]
    exact List.forall₂_same.mpr fun _ _ => ⟨rfl, fun _ => Iff.rfl⟩
  fields := by
    have hname : a.name = b.name := (congrArg ClassFile.name h.declared :)
    have hfields : a.fields.filter (Flags.isVisible ·.flags) =
        b.fields.filter (Flags.isVisible ·.flags) := h.fields
    rw [ClassRecord.visibleFields_ofClassFile, ClassRecord.visibleFields_ofClassFile, hname, hfields]
    exact List.forall₂_same.mpr fun _ _ => ⟨⟨rfl, fun _ => Iff.rfl⟩, rfl⟩
  note := by
    have hvalues : (ClassRecord.ofClassFile isExternal a).annotationValues =
        (ClassRecord.ofClassFile isExternal b).annotationValues :=
      (congrArg (fun c => (ClassRecord.ofClassFile isExternal c).annotationValues) h.declared :)
    rw [hvalues]

/-! ## 3. The text -/

namespace Scan

/-- Scans of class files that differ in hidden members only end alike: with the same text, or
for the same cause. -/
theorem render_hides_members {d₁ d₂ : Disk} {home₁ home₂ : Place} {h₁ h₂ : Handle}
    (htarget : h₁.target = h₂.target)
    (htables : (h₁.table d₁ home₁).SameUpTo Eq ClassFile.SameSurface (h₂.table d₂ home₂))
    (hnote : (h₁.table d₁ home₁).file? Metadata.annotationName =
      (h₂.table d₂ home₂).file? Metadata.annotationName)
    (s : Settings) : (render s d₁ home₁ h₁).outcome = (render s d₂ home₂ h₂).outcome := by
  refine endAlike_eq_iff.mp (renderTable_alike (fun _ => rfl) (fun _ => by rw [htarget])
    (htables.alike ?_ ?_) s)
  · exact fun _ a b isExternal _ _ hab => hab.alike isExternal
  · intro a b ha hb _
    rw [hnote, hb] at ha
    cases ha
    rfl

namespace MemberSample

/-- The small class with a private method beside the public one. -/
def withPrivate : ClassFile := classFile [method 1 "m" "()V", method 2 "n" "("]

def bytesWithPrivate : List UInt8 := bytes [methodBytes 1 3 5, methodBytes 2 4 6]

theorem parse_bytesWithPrivate : ClassFile.parse bytesWithPrivate = .ok withPrivate := by cbv

theorem render_bytesPublicOnly :
    (render (Sample.settings []) (disk bytesPublicOnly) [] handle).outcome =
      .ok "public abstract class p.A\n  public void m()\n##\n" := by
  rw [render, table_handle parse_bytesPublicOnly]
  exact renderTable_publicOnly

end MemberSample

/-- A private method with a malformed descriptor does not touch the text of the small class. -/
theorem render_hides_members_of_sample :
    (render (Sample.settings []) (MemberSample.disk MemberSample.bytesPublicOnly) []
        MemberSample.handle).outcome =
      .ok "public abstract class p.A\n  public void m()\n##\n" ∧
    (render (Sample.settings []) (MemberSample.disk MemberSample.bytesPublicOnly) []
        MemberSample.handle).outcome =
      (render (Sample.settings []) (MemberSample.disk MemberSample.bytesWithPrivate) []
        MemberSample.handle).outcome := by
  refine ⟨MemberSample.render_bytesPublicOnly, render_hides_members rfl ?_ ?_ _⟩
  · rw [MemberSample.table_handle MemberSample.parse_bytesPublicOnly,
      MemberSample.table_handle MemberSample.parse_bytesWithPrivate]
    exact MemberSample.sameUpTo_table ⟨rfl, rfl, rfl, fun _ => Iff.rfl⟩
  · rw [MemberSample.table_handle MemberSample.parse_bytesPublicOnly,
      MemberSample.table_handle MemberSample.parse_bytesWithPrivate]
    rfl

end Scan

end ApiSurface
