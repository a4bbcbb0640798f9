/-
ApiSurface.Proofs.Universe.Table — what a scan can see, as a graph of references.

`ClassTable.file?` is the class file that a name stands for. A class file refers
to others in one of three roles, and `Reaches` follows references through the
class files of a table. Nothing here knows of the order in which a scan meets
names: that the scan computes these notions is the subject of
`Universe.Enumeration`.

`Handle.coherent_table` ties a table to an opened handle: own names are in order
and found in the target, all others outside of it, and names that nothing defines
have no class.
-/
import ApiSurface.Proofs.ClassPath.Lookup
import ApiSurface.Universe.Enumeration

namespace ApiSurface

/-! ## 1. References -/

/-- A class file refers to a name in a role: as its superclass, as an interface, or
as an annotation of the class or of one of its members. -/
inductive ClassFile.RefersTo (c : ClassFile) : String → ClassKind → Prop where
  | superclass {n : String} : c.superclass = some n → n ≠ "" → c.RefersTo n .ordinary
  | interface {n : String} : n ∈ c.interfaces → c.RefersTo n .interface
  | ofClass {a : Annotation} : a ∈ c.annotations → c.RefersTo a.type .annotationType
  | ofMethod {m : MethodInfo} {a : Annotation} :
      m ∈ c.methods → a ∈ m.annotations → c.RefersTo a.type .annotationType
  | ofField {f : FieldInfo} {a : Annotation} :
      f ∈ c.fields → a ∈ f.annotations → c.RefersTo a.type .annotationType

namespace ClassRecord

theorem mem_annotationTypes {name : String} {annotations : List Annotation} :
    name ∈ annotationTypes annotations ↔ ∃ a ∈ annotations, a.type = name := by
  simp [annotationTypes]

theorem mem_memberAnnotations_ofClassFile {isExternal : Bool} {c : ClassFile} {name : String} :
    name ∈ (ofClassFile isExternal c).memberAnnotations ↔
      (∃ m ∈ c.methods, ∃ a ∈ m.annotations, a.type = name) ∨
        ∃ f ∈ c.fields, ∃ a ∈ f.annotations, a.type = name := by
  simp [memberAnnotations, ofClassFile, methodOf, fieldOf, mem_annotationTypes]

/-- The record of a class file makes the references of the class file. -/
theorem mem_references_ofClassFile {isExternal : Bool} {c : ClassFile} {name : String}
    {role : ClassKind} :
    (name, role) ∈ (ofClassFile isExternal c).references ↔ c.RefersTo name role := by
  simp only [references, List.mem_append, List.mem_map, Prod.mk.injEq, Names.mem_sorted,
    Names.mem_distinct, mem_memberAnnotations_ofClassFile, Option.mem_toList]
  constructor
  · rintro ((⟨n, hn, rfl, rfl⟩ | ⟨n, hn, rfl, rfl⟩) | ⟨n, hn, rfl, rfl⟩)
    · obtain ⟨hs, hne⟩ := Option.mem_filter_iff.mp hn
      exact .superclass hs (by simpa using hne)
    · exact .interface hn
    · rcases hn with hn | ⟨m, hm, a, ha, rfl⟩ | ⟨f, hf, a, ha, rfl⟩
      · obtain ⟨a, ha, rfl⟩ := mem_annotationTypes.mp hn
        exact .ofClass ha
      · exact .ofMethod hm ha
      · exact .ofField hf ha
  · intro h
    cases h with
    | superclass hs hne =>
      exact .inl (.inl ⟨name, Option.mem_filter_iff.mpr ⟨hs, by simpa using hne⟩, rfl, rfl⟩)
    | interface hn => exact .inl (.inr ⟨name, hn, rfl, rfl⟩)
    | ofClass ha => exact .inr ⟨_, .inl (mem_annotationTypes.mpr ⟨_, ha, rfl⟩), rfl, rfl⟩
    | ofMethod hm ha => exact .inr ⟨_, .inr (.inl ⟨_, hm, _, ha, rfl⟩), rfl, rfl⟩
    | ofField hf ha => exact .inr ⟨_, .inr (.inr ⟨_, hf, _, ha, rfl⟩), rfl, rfl⟩

/-- A placeholder refers to nothing. -/
@[simp] theorem references_placeholder (name : String) (kind : ClassKind) :
    (placeholder name kind).references = [] := by
  simp [placeholder, references, superclassName?, memberAnnotations, Names.sorted, Names.distinct]

end ClassRecord

namespace ClassTable

variable {t : ClassTable}

/-- The class file that a name stands for, if there is one and it can be read. -/
def file? (t : ClassTable) (name : String) : Option ClassFile :=
  match t.lookUp name with
  | .ok (some loaded) => some loaded.file
  | _ => none

/-- One class refers to another. -/
def Refers (t : ClassTable) (a b : String) (role : ClassKind) : Prop :=
  ∃ c, t.file? a = some c ∧ c.RefersTo b role

/-- A name can be reached from another by references. -/
inductive Reaches (t : ClassTable) (start : String) : String → Prop where
  | refl : t.Reaches start start
  | step {a b : String} {role : ClassKind} :
      t.Reaches start a → t.Refers a b role → t.Reaches start b

/-- An own class that the exclusion admits. -/
def Admits (t : ClassTable) (x : Exclusion) (name : String) : Prop :=
  name ∈ t.own ∧ x.covers name = false

/-- A name can be reached from the admitted classes: the names that a scan deals with. -/
def InScope (t : ClassTable) (x : Exclusion) (name : String) : Prop :=
  ∃ root, t.Admits x root ∧ t.Reaches root name

/-- Every class file is stored under its own name. -/
def StoredByName (t : ClassTable) : Prop :=
  ∀ name c, t.file? name = some c → c.name = name

/-- No undefined name that a scan deals with is referred to in more than one role. -/
def HasSingleRoles (t : ClassTable) (x : Exclusion) : Prop :=
  ∀ name, t.lookUp name = .ok none → ∀ a b role role', t.InScope x a → t.InScope x b →
    t.Refers a name role → t.Refers b name role' → role = role'

theorem Reaches.trans {a b c : String} (hab : t.Reaches a b) (hbc : t.Reaches b c) :
    t.Reaches a c := by
  induction hbc with
  | refl => exact hab
  | step _ hr ih => exact .step ih hr

theorem Admits.inScope {x : Exclusion} {name : String} (h : t.Admits x name) :
    t.InScope x name := ⟨name, h, .refl⟩

theorem InScope.step {x : Exclusion} {a b : String} {role : ClassKind} (h : t.InScope x a)
    (hr : t.Refers a b role) : t.InScope x b := by
  obtain ⟨root, hroot, ha⟩ := h
  exact ⟨root, hroot, .step ha hr⟩

theorem InScope.of_reaches {x : Exclusion} {a b : String} (h : t.InScope x a)
    (hr : t.Reaches a b) : t.InScope x b := by
  obtain ⟨root, hroot, ha⟩ := h
  exact ⟨root, hroot, ha.trans hr⟩

/-! ## 2. Tables of opened handles -/

/-- Own names stand in order and are found in the target, others are not, and names
that are not defined have no class. -/
structure Coherent (t : ClassTable) : Prop where
  own_lt : t.own.Pairwise (· < ·)
  lookUp_own : ∀ {name found}, name ∈ t.own → t.lookUp name = .ok found →
    ∃ file, found = some ⟨file, false⟩
  lookUp_other : ∀ {name loaded}, name ∉ t.own → t.lookUp name = .ok (some loaded) →
    loaded.isExternal = true
  lookUp_undefined : ∀ {name}, name ∉ t.defined → t.lookUp name = .ok none

theorem file?_eq_some {name : String} {c : ClassFile} :
    t.file? name = some c ↔ ∃ loaded, t.lookUp name = .ok (some loaded) ∧ loaded.file = c := by
  unfold file?
  split
  · next loaded h => simp [h]
  · next h =>
    simp only [reduceCtorEq, false_iff, not_exists, not_and]
    exact fun loaded hl _ => h loaded hl

/-- A name that is not defined has a placeholder. -/
theorem record_of_not_mem {name : String} {kind : ClassKind} (hn : name ∉ t.defined) :
    t.record name kind = .ok (.placeholder name kind) := by
  rw [record, if_neg (by simpa using hn)]

/-- The record of a name is that of its class, or else a placeholder. -/
theorem Coherent.record_eq_ok (ht : t.Coherent) {name : String} {kind : ClassKind}
    {r : ClassRecord} (hr : t.record name kind = .ok r) :
    (∃ loaded, t.lookUp name = .ok (some loaded) ∧
        r = .ofClassFile loaded.isExternal loaded.file) ∨
      (t.lookUp name = .ok none ∧ r = .placeholder name kind) := by
  by_cases hd : name ∈ t.defined
  · rw [record, if_pos (by simpa using hd)] at hr
    cases hl : t.lookUp name with
    | error why => simp [hl, Except.map] at hr
    | ok found =>
      cases found with
      | none => exact .inr ⟨rfl, by simpa [hl, Except.map, eq_comm] using hr⟩
      | some loaded => exact .inl ⟨loaded, rfl, by simpa [hl, Except.map, eq_comm] using hr⟩
  · rw [record_of_not_mem hd] at hr
    exact .inr ⟨ht.lookUp_undefined hd, by simpa [eq_comm] using hr⟩

end ClassTable

/-- What a scan sees through an opened handle is coherent. -/
theorem Handle.coherent_table {d : Disk} {home : Place} {target : Path} {classpath : List Path}
    {h : Handle} (hr : (resolve d home target classpath).outcome = .ok h) :
    (h.table d home).Coherent where
  own_lt := Names.sorted_distinct_lt _
  lookUp_own hn hl := lookUp_of_mem_target (isComplete_own hr) (by simpa [table, targetNames] using hn) hl
  lookUp_other hn hl := isExternal_of_not_mem_target (by simpa [table, targetNames] using hn) hl
  lookUp_undefined hn := lookUp_of_not_mem_names hn

end ApiSurface
