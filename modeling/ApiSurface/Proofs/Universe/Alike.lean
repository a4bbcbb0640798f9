/-
ApiSurface.Proofs.Universe.Alike — universes that tell the same story.

Two records are alike if nothing that a snapshot shows, and nothing that the walk from
class to class goes by, tells them apart: the order of their annotations may differ, and
so may members that are not visible from outside. Two tables are alike if they give alike
records for every name. Then their enumerations take the same turns, each of them keeping
the universes alike (`Turn.alike`), and end alike (`enumerate_alike`); and walks over the
hierarchies of both universes meet records that are alike.

`SameUpTo` says of two tables that the class files behind each name are related. It is the
way into this relation for statements about class files.
-/
import ApiSurface.Proofs.Universe.Closure
import ApiSurface.Visibility.Rules

namespace ApiSurface

/-! ## 1. Records -/

/-- Two lists hold the same names. -/
def SameNames (names names' : List String) : Prop := ∀ name, name ∈ names ↔ name ∈ names'

/-- Two members differ in nothing but how their annotations are listed. -/
structure Member.Alike (a b : Member) : Prop where
  declared : { a with annotations := [] } = { b with annotations := [] }
  annotations : SameNames a.annotations b.annotations

/-- Two methods differ in nothing but how their annotations are listed. -/
def MethodRecord.Alike (a b : MethodRecord) : Prop := a.toMember.Alike b.toMember

/-- Two fields differ in nothing but how their annotations are listed. -/
structure FieldRecord.Alike (a b : FieldRecord) : Prop where
  member : a.toMember.Alike b.toMember
  constant : a.constant = b.constant

namespace ClassRecord

/-- The methods that are visible from outside, in order. -/
def visibleMethods (r : ClassRecord) : List MethodRecord :=
  (r.methods.mergeSort fun a b => View.memberLe a.toMember b.toMember).filter
    (Flags.isVisible ·.modifiers)

/-- The fields that are visible from outside, in order. -/
def visibleFields (r : ClassRecord) : List FieldRecord :=
  (r.fields.mergeSort fun a b => View.memberLe a.toMember b.toMember).filter
    (Flags.isVisible ·.modifiers)

/-- Two records say the same of a class, as far as a snapshot can tell. -/
structure Alike (a b : ClassRecord) : Prop where
  declared : { a with annotations := [], methods := [], fields := [], annotationValues := [] } =
    { b with annotations := [], methods := [], fields := [], annotationValues := [] }
  annotations : SameNames a.annotations b.annotations
  memberAnnotations : SameNames a.memberAnnotations b.memberAnnotations
  methods : List.Forall₂ MethodRecord.Alike a.visibleMethods b.visibleMethods
  fields : List.Forall₂ FieldRecord.Alike a.visibleFields b.visibleFields
  /-- Both records hold the same note on the kind of the class. -/
  note : a.annotationValues.lookup Metadata.annotationName =
    b.annotationValues.lookup Metadata.annotationName

namespace Alike

protected theorem refl (r : ClassRecord) : r.Alike r where
  declared := rfl
  annotations _ := Iff.rfl
  memberAnnotations _ := Iff.rfl
  methods := List.forall₂_same.mpr fun _ _ => ⟨rfl, fun _ => Iff.rfl⟩
  fields := List.forall₂_same.mpr fun _ _ => ⟨⟨rfl, fun _ => Iff.rfl⟩, rfl⟩
  note := rfl

variable {a b : ClassRecord} (h : a.Alike b)
include h

theorem name : a.name = b.name := (congrArg ClassRecord.name h.declared :)

theorem isExternal : a.isExternal = b.isExternal := (congrArg ClassRecord.isExternal h.declared :)

theorem interfaces : a.interfaces = b.interfaces := (congrArg ClassRecord.interfaces h.declared :)

theorem superclassName? : a.superclassName? = b.superclassName? :=
  (congrArg ClassRecord.superclassName? h.declared :)

theorem isInterface : a.isInterface = b.isInterface :=
  (congrArg ClassRecord.isInterface h.declared :)

theorem isAnnotationType : a.isAnnotationType = b.isAnnotationType :=
  (congrArg ClassRecord.isAnnotationType h.declared :)

/-- References to annotations are sorted, so the order of annotations does not show in them. -/
theorem references : a.references = b.references := by
  have hsorted : Names.sorted (Names.distinct (a.annotations ++ a.memberAnnotations)) =
      Names.sorted (Names.distinct (b.annotations ++ b.memberAnnotations)) :=
    Names.sorted_distinct_congr fun name => by
      rw [List.mem_append, List.mem_append, h.annotations name, h.memberAnnotations name]
  rw [ClassRecord.references, ClassRecord.references, h.superclassName?, h.interfaces, hsorted]

end Alike

end ClassRecord

/-! ## 2. Universes -/

namespace Universe

/-- Two lists have alike records under the same names. -/
def RecordsAlike (l₁ l₂ : List (String × ClassRecord)) : Prop :=
  List.Forall₂ (fun e₁ e₂ => e₁.1 = e₂.1 ∧ e₁.2.Alike e₂.2) l₁ l₂

/-- Two universes have alike records and the same candidates. -/
structure Alike (u₁ u₂ : Universe) : Prop where
  records : RecordsAlike u₁.records u₂.records
  candidates : u₁.candidates = u₂.candidates

namespace RecordsAlike

variable {l₁ l₂ : List (String × ClassRecord)}

theorem lookup (h : RecordsAlike l₁ l₂) (name : String) :
    Option.Rel ClassRecord.Alike (l₁.lookup name) (l₂.lookup name) := by
  induction h with
  | nil => exact .none
  | @cons e₁ e₂ l₁ l₂ he _ ih =>
    rw [List.lookup_cons, List.lookup_cons, he.1]
    cases name == e₂.1 with
    | true => exact .some he.2
    | false => exact ih

theorem lookup_eq_none (h : RecordsAlike l₁ l₂) {name : String} (hr : l₁.lookup name = none) :
    l₂.lookup name = none := by
  have hlookup := h.lookup name
  rw [hr] at hlookup
  cases hr₂ : l₂.lookup name with
  | none => rfl
  | some r₂ =>
    rw [hr₂] at hlookup
    cases hlookup

theorem lookup_eq_some (h : RecordsAlike l₁ l₂) {name : String} {r₁ : ClassRecord}
    (hr : l₁.lookup name = some r₁) : ∃ r₂, l₂.lookup name = some r₂ ∧ r₁.Alike r₂ := by
  have hlookup := h.lookup name
  rw [hr] at hlookup
  cases hr₂ : l₂.lookup name with
  | none =>
    rw [hr₂] at hlookup
    cases hlookup
  | some r₂ =>
    rw [hr₂] at hlookup
    cases hlookup with
    | some hab => exact ⟨r₂, rfl, hab⟩

theorem without (h : RecordsAlike l₁ l₂) (name : String) :
    RecordsAlike (without name l₁) (without name l₂) :=
  List.rel_filter (fun e₁ e₂ he => by simp only [he.1]) h

/-- Walks up the superclasses meet alike records. -/
theorem superclassesFrom (h : RecordsAlike l₁ l₂) (name? : Option String) :
    List.Forall₂ ClassRecord.Alike (superclassesFrom l₁ name?) (superclassesFrom l₂ name?) := by
  induction l₁, name? using superclassesFrom.induct generalizing l₂ with
  | case1 l₁ =>
    rw [Universe.superclassesFrom, Universe.superclassesFrom]
    exact .nil
  | case2 l₁ name hr₁ =>
    rw [superclassesFrom_of_none hr₁, superclassesFrom_of_none (h.lookup_eq_none hr₁)]
    exact .nil
  | case3 l₁ name r₁ hr₁ ih =>
    obtain ⟨r₂, hr₂, hr⟩ := h.lookup_eq_some hr₁
    rw [superclassesFrom_of_some hr₁, superclassesFrom_of_some hr₂, ← hr.superclassName?]
    exact .cons hr (ih (h.without name))

/-- Walks through interfaces meet alike records. -/
theorem interfacesFrom (h : RecordsAlike l₁ l₂) (pending : List String) :
    List.Forall₂ ClassRecord.Alike (interfacesFrom l₁ pending) (interfacesFrom l₂ pending) := by
  induction l₁, pending using interfacesFrom.induct generalizing l₂ with
  | case1 l₁ =>
    rw [Universe.interfacesFrom, Universe.interfacesFrom]
    exact .nil
  | case2 l₁ name rest hr₁ ih =>
    rw [interfacesFrom_of_none hr₁, interfacesFrom_of_none (h.lookup_eq_none hr₁)]
    exact ih h
  | case3 l₁ name rest r₁ hr₁ ih =>
    obtain ⟨r₂, hr₂, hr⟩ := h.lookup_eq_some hr₁
    rw [interfacesFrom_of_some hr₁, interfacesFrom_of_some hr₂, ← hr.interfaces]
    exact .cons hr (ih (h.without name))

end RecordsAlike

namespace Alike

variable {u₁ u₂ : Universe} (h : u₁.Alike u₂)
include h

theorem record? (name : String) :
    Option.Rel ClassRecord.Alike (u₁.record? name) (u₂.record? name) := h.records.lookup name

theorem knows (name : String) : u₁.knows name = u₂.knows name := by
  have hr := h.record? name
  unfold Universe.knows
  cases hr₁ : u₁.record? name <;> cases hr₂ : u₂.record? name <;> simp_all

theorem add {name : String} {r₁ r₂ : ClassRecord} (hr : r₁.Alike r₂) (isCandidate : Bool) :
    (u₁.add name r₁ isCandidate).Alike (u₂.add name r₂ isCandidate) where
  records := List.rel_append h.records (.cons ⟨rfl, hr⟩ .nil)
  candidates := by
    have hcandidates : ∀ (u : Universe) (r : ClassRecord), (u.add name r isCandidate).candidates =
        if isCandidate then u.candidates ++ [name] else u.candidates := fun _ _ => rfl
    rw [hcandidates, hcandidates, h.candidates]

theorem classes : List.Forall₂ ClassRecord.Alike u₁.classes u₂.classes := by
  rw [Universe.classes_eq_filterMap, Universe.classes_eq_filterMap, ← h.candidates]
  exact List.rel_filterMap (R := Eq) (fun name _ hn => hn ▸ h.record? name)
    (List.forall₂_same.mpr fun _ _ => rfl)

theorem annotations : List.Forall₂ ClassRecord.Alike u₁.annotations u₂.annotations :=
  List.rel_filter (fun r₁ r₂ hr => by simp only [hr.isAnnotationType])
    (List.rel_map (fun e₁ e₂ he => he.2) h.records)

theorem superclasses {r₁ r₂ : ClassRecord} (hr : r₁.Alike r₂) :
    List.Forall₂ ClassRecord.Alike (u₁.superclasses r₁) (u₂.superclasses r₂) := by
  rw [Universe.superclasses, Universe.superclasses, hr.name, hr.superclassName?]
  exact (h.records.without _).superclassesFrom _

theorem interfaces {r₁ r₂ : ClassRecord} (hr : r₁.Alike r₂) :
    List.Forall₂ ClassRecord.Alike (u₁.interfaces r₁) (u₂.interfaces r₂) := by
  have hroots : (if r₁.isInterface then [r₁] else r₁ :: u₁.superclasses r₁).flatMap (·.interfaces) =
      (if r₂.isInterface then [r₂] else r₂ :: u₂.superclasses r₂).flatMap (·.interfaces) := by
    rw [hr.isInterface, ← List.forall₂_eq_eq_eq]
    refine List.rel_flatMap (R := ClassRecord.Alike) (P := Eq) ?_
      (fun a b hab => by rw [hab.interfaces, List.forall₂_eq_eq_eq])
    split_ifs
    · exact .cons hr .nil
    · exact .cons hr (h.superclasses hr)
  rw [Universe.interfaces, Universe.interfaces, hroots, hr.name]
  exact (h.records.without _).interfacesFrom _

theorem extends?_eq {r₁ r₂ : ClassRecord} (hr : r₁.Alike r₂) (base : String) :
    u₁.extends? r₁ base = u₂.extends? r₂ base := by
  unfold Universe.extends?
  generalize u₁.superclasses r₁ = above₁, u₂.superclasses r₂ = above₂, h.superclasses hr = hs
  induction hs with
  | nil => rfl
  | cons hab _ ih => rw [List.any_cons, List.any_cons, hab.name, ih]

end Alike

end Universe

/-! ## 3. Tables -/

namespace ClassTable

variable {E : Fault → Fault → Prop} {t₁ t₂ : ClassTable} {x : Exclusion}

/-- Two tables give alike records for all names, or fail for related causes. -/
structure Alike (E : Fault → Fault → Prop) (t₁ t₂ : ClassTable) : Prop where
  own : t₁.own = t₂.own
  record : ∀ name role, EndAlike E ClassRecord.Alike (t₁.record name role) (t₂.record name role)
  metadata : EndAlike E Eq (Metadata.resolve t₁).outcome (Metadata.resolve t₂).outcome

/-- Two tables have the same names, and related class files behind each of them. -/
structure SameUpTo (E : Fault → Fault → Prop) (R : ClassFile → ClassFile → Prop)
    (t₁ t₂ : ClassTable) : Prop where
  own : t₁.own = t₂.own
  defined : SameNames t₁.defined t₂.defined
  lookUp : ∀ name, EndAlike E
    (Option.Rel fun a b => a.isExternal = b.isExternal ∧ R a.file b.file)
    (t₁.lookUp name) (t₂.lookUp name)

variable {R : ClassFile → ClassFile → Prop}

theorem SameUpTo.record (h : SameUpTo E R t₁ t₂)
    (halike : ∀ name a b isExternal, t₁.file? name = some a → t₂.file? name = some b → R a b →
      (ClassRecord.ofClassFile isExternal a).Alike (.ofClassFile isExternal b))
    (name : String) (role : ClassKind) :
    EndAlike E ClassRecord.Alike (t₁.record name role) (t₂.record name role) := by
  by_cases hd : name ∈ t₁.defined
  · have hd₂ := (h.defined name).mp hd
    rw [ClassTable.record, ClassTable.record, if_pos (by simpa using hd), if_pos (by simpa using hd₂)]
    cases hl₁ : t₁.lookUp name with
    | error why =>
      obtain ⟨why', hl₂, he⟩ := (h.lookUp name).of_error hl₁
      rw [hl₂]
      exact .error he
    | ok found₁ =>
      obtain ⟨found₂, hl₂, hfound⟩ := (h.lookUp name).of_ok hl₁
      rw [hl₂]
      cases hfound with
      | none => exact .ok (.refl _)
      | @some loaded₁ loaded₂ hab =>
        refine .ok ?_
        have hfile := halike name loaded₁.file loaded₂.file loaded₁.isExternal
          (file?_eq_some.mpr ⟨_, hl₁, rfl⟩) (file?_eq_some.mpr ⟨_, hl₂, rfl⟩) hab.2
        simpa only [hab.1] using hfile
  · rw [record_of_not_mem hd, record_of_not_mem fun hd₂ => hd ((h.defined name).mpr hd₂)]
    exact .ok (.refl _)

/-- Tables are alike if the records of related class files are, and if related class files
of the note declare the same. -/
theorem SameUpTo.alike (h : SameUpTo E R t₁ t₂)
    (halike : ∀ name a b isExternal, t₁.file? name = some a → t₂.file? name = some b → R a b →
      (ClassRecord.ofClassFile isExternal a).Alike (.ofClassFile isExternal b))
    (hnote : ∀ a b, t₁.file? Metadata.annotationName = some a →
      t₂.file? Metadata.annotationName = some b → R a b → a.metadata? = b.metadata?) :
    Alike E t₁ t₂ where
  own := h.own
  record := h.record halike
  metadata := by
    rw [Metadata.outcome_resolve, Metadata.outcome_resolve]
    cases hl₁ : t₁.lookUp Metadata.annotationName with
    | error why =>
      obtain ⟨why', hl₂, he⟩ := (h.lookUp _).of_error hl₁
      rw [hl₂]
      exact .error he
    | ok found₁ =>
      obtain ⟨found₂, hl₂, hfound⟩ := (h.lookUp _).of_ok hl₁
      rw [hl₂]
      cases hfound with
      | none => exact .ok rfl
      | some hab =>
        exact .ok (hnote _ _ (file?_eq_some.mpr ⟨_, hl₁, rfl⟩) (file?_eq_some.mpr ⟨_, hl₂, rfl⟩)
          hab.2)

theorem SameUpTo.alike_of_eq (h : SameUpTo E Eq t₁ t₂) : Alike E t₁ t₂ := by
  refine h.alike ?_ ?_
  · rintro _ c _ isExternal - - rfl
    exact .refl _
  · rintro c _ - - rfl
    rfl

end ClassTable

/-! ## 4. Enumeration -/

namespace Universe

variable {E : Fault → Fault → Prop} {t₁ t₂ : ClassTable} {x : Exclusion}

/-- A turn in one table can be taken in an alike one, and leaves alike universes and the
same references. -/
theorem Turn.alike (h : ClassTable.Alike E t₁ t₂) {pending pending' : List (String × ClassKind)}
    {u₁ u₁' u₂ : Universe} (hturn : Turn t₁ (pending, u₁) (pending', u₁')) (hu : u₁.Alike u₂) :
    ∃ u₂', Turn t₂ (pending, u₂) (pending', u₂') ∧ u₁'.Alike u₂' := by
  cases hturn with
  | drop hk => exact ⟨u₂, .drop (by rw [← hu.knows]; exact hk), hu⟩
  | follow hk hr =>
    obtain ⟨r₂, hr₂, hab⟩ := (h.record _ _).of_ok hr
    rw [hab.references, hab.isExternal]
    exact ⟨_, .follow (by rw [← hu.knows]; exact hk) hr₂, hu.add hab _⟩

/-- Where turns lead in one table, they lead alike in an alike one. -/
theorem Walks.alike (h : ClassTable.Alike E t₁ t₂) {w : Walk} {outcome₁ : Except Fault Universe}
    (hw : Walks t₁ w outcome₁) {u₂ : Universe} (hu : w.2.Alike u₂) :
    ∃ outcome₂, Walks t₂ (w.1, u₂) outcome₂ ∧ EndAlike E Universe.Alike outcome₁ outcome₂ := by
  induction hw generalizing u₂ with
  | done => exact ⟨.ok u₂, .done, .ok hu⟩
  | stuck hk hr =>
    obtain ⟨why', hr₂, he⟩ := (h.record _ _).of_error hr
    exact ⟨.error why', .stuck (by rw [← hu.knows]; exact hk) hr₂, .error he⟩
  | turn hturn _ ih =>
    obtain ⟨u₂', hturn₂, hu'⟩ := hturn.alike h hu
    obtain ⟨outcome₂, hw₂, halike⟩ := ih hu'
    exact ⟨outcome₂, .turn hturn₂ hw₂, halike⟩

/-- The first loops of both enumerations end alike, with the same references. -/
theorem addOwn_alike (h : ClassTable.Alike E t₁ t₂) (ahead : List String) {u₁ u₂ : Universe}
    (hu : u₁.Alike u₂) (references : List (String × ClassKind)) :
    EndAlike E (fun start₁ start₂ => start₁.1.Alike start₂.1 ∧ start₁.2 = start₂.2)
      (addOwn t₁ x ahead u₁ references).outcome (addOwn t₂ x ahead u₂ references).outcome := by
  induction ahead, u₁, references using addOwn.induct x generalizing u₂ with
  | case1 u₁ references =>
    rw [addOwn, addOwn]
    exact .ok ⟨hu, rfl⟩
  | case2 name rest u₁ references hx ih =>
    rw [addOwn, addOwn, if_pos hx, if_pos hx]
    exact ih hu
  | case3 name rest u₁ references hx ih =>
    rw [addOwn, addOwn, if_neg hx, if_neg hx, Report.outcome_bind, Report.outcome_bind]
    refine (h.record name .ordinary).bind fun r₁ r₂ hr => ?_
    rw [← hr.references]
    exact ih r₁ (hu.add hr true)

/-- Enumerations of alike tables end alike. -/
theorem enumerate_alike (h : ClassTable.Alike E t₁ t₂) (target₁ target₂ : Path) :
    EndAlike E Universe.Alike (enumerate t₁ x target₁).outcome
      (enumerate t₂ x target₂).outcome := by
  have hstart := addOwn_alike (x := x) h t₁.own (⟨.nil, rfl⟩ : empty.Alike empty) []
  cases hs₁ : (addOwn t₁ x t₁.own empty []).outcome with
  | error why =>
    obtain ⟨why', hs₂, he⟩ := hstart.of_error hs₁
    rw [enumerate, enumerate, Report.outcome_bind, Report.outcome_bind, hs₁, ← h.own, hs₂]
    exact .error he
  | ok start₁ =>
    obtain ⟨start₂, hs₂, hu, hreferences⟩ := hstart.of_ok hs₁
    have hw₁ := (enumerate_walks_iff target₁ hs₁).mpr rfl
    obtain ⟨outcome₂, hw₂, halike⟩ := hw₁.alike h hu
    rw [h.own] at hs₂
    rw [hreferences] at hw₂
    rwa [(enumerate_walks_iff target₂ hs₂).mp hw₂] at halike

end Universe

end ApiSurface
