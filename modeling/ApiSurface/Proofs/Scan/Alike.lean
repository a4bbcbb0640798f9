/-
ApiSurface.Proofs.Scan.Alike — scans of tables that tell the same story.

From alike tables to the text: alike classes have the same lines (`Snapshot.block_alike`),
and so the scans of alike tables end alike, with the same text or for related causes
(`renderTable_alike`). The causes are related by any relation that a fault has to itself
and that does not look at the target: with equality, both scans fail for the same cause.
-/
import ApiSurface.Proofs.Scan.PublicInterface
import ApiSurface.Proofs.Visibility.Alike

namespace ApiSurface

/-! ## 1. Lines -/

namespace Snapshot

/-- The annotations of a method do not show in its line. -/
theorem methodLine_alike {a b : MethodRecord} (h : a.Alike b) : methodLine a = methodLine b :=
  (congrArg (fun m => methodLine ⟨m⟩) h.declared :)

/-- The annotations of a field do not show in its line. -/
theorem fieldLine_alike {a b : FieldRecord} (h : a.Alike b) : fieldLine a = fieldLine b := by
  have hline := congrArg (fun m => fieldLine ⟨m, a.constant⟩) h.member.declared
  rw [h.constant] at hline
  rw [show a = ⟨a.toMember, b.constant⟩ from by rw [← h.constant]]
  exact hline

theorem header_alike {a b : ClassRecord} (h : a.Alike b) : header a = header b :=
  (congrArg header h.declared :)

/-- Lists are collected alike if their elements are. -/
theorem outcome_collect_eq {α β γ : Type} {R : α → β → Prop} {f : α → Report ClassFault (List γ)}
    {g : β → Report ClassFault (List γ)} (hfg : ∀ a b, R a b → (f a).outcome = (g b).outcome)
    {l₁ : List α} {l₂ : List β} (h : List.Forall₂ R l₁ l₂) :
    (collect f l₁).outcome = (collect g l₂).outcome := by
  induction h with
  | nil => rfl
  | cons hab _ ih => simp only [collect, Report.outcome_bind, Report.outcome_pure, hfg _ _ hab, ih]

variable {v₁ v₂ : View} (h : v₁.Alike v₂)
include h

/-- Alike classes have the same lines, or fail for the same cause. -/
theorem block_alike {r₁ r₂ : ClassRecord} (hr : r₁.Alike r₂) :
    (block v₁ r₁).outcome = (block v₂ r₂).outcome := by
  have hmethods := outcome_collect_eq
    (f := fun m => return memberLines v₁ m.toMember (← methodLine m))
    (g := fun m => return memberLines v₂ m.toMember (← methodLine m)) (fun a b hab => by
      simp only [memberLines, methodLine_alike hab, h.memberAnnotations_eq hab])
    (h.publicMethods hr)
  have hfields := outcome_collect_eq
    (f := fun f => return memberLines v₁ f.toMember (← fieldLine f))
    (g := fun f => return memberLines v₂ f.toMember (← fieldLine f)) (fun a b hab => by
      simp only [memberLines, fieldLine_alike hab, h.memberAnnotations_eq hab.member])
    (h.publicFields hr)
  simp only [block, Report.outcome_bind, hmethods, hfields, h.classAnnotations_eq hr, header_alike hr]

/-- Alike classes have the same text, or fail for the same cause. -/
theorem render_alike {l₁ l₂ : List ClassRecord} (hl : List.Forall₂ ClassRecord.Alike l₁ l₂) :
    (render v₁ l₁).outcome = (render v₂ l₂).outcome := by
  rw [render, render, Report.outcome_bind, Report.outcome_bind,
    outcome_collect_eq (fun a b hab => block_alike h hab) hl]

end Snapshot

/-! ## 2. Scans -/

namespace Scan

/-- Scans of alike tables give the same text, or fail for related causes. -/
theorem renderTable_alike {E : Fault → Fault → Prop} (hE : ∀ why, E why why)
    {target₁ target₂ : Path} (htarget : ∀ why, E (renderFault target₁ why) (renderFault target₂ why))
    {t₁ t₂ : ClassTable} (h : t₁.Alike E t₂) (s : Settings) :
    EndAlike E Eq (renderTable s t₁ target₁).outcome (renderTable s t₂ target₂).outcome := by
  simp only [renderTable, Report.outcome_bind]
  refine (Universe.enumerate_alike h target₁ target₂).bind fun u₁ u₂ hu => ?_
  rw [Classification.ofUniverse_eq hu]
  refine (EndAlike.refl hE (fun _ => rfl) _).bind (R := Eq) fun _ _ _ => ?_
  refine h.metadata.bind fun metadata _ hm => ?_
  subst hm
  have hview : View.Alike
      ⟨u₁, .ofUniverse u₂ s.markers, s.markers, s.excludedMethods, metadata⟩
      ⟨u₂, .ofUniverse u₂ s.markers, s.markers, s.excludedMethods, metadata⟩ :=
    ⟨hu, rfl, rfl, rfl, rfl⟩
  refine (hview.includedClasses hE).bind fun l₁ l₂ hl => ?_
  simp only [Report.mapFault, Snapshot.render_alike hview hl]
  cases (Snapshot.render _ l₂).outcome with
  | error why => exact .error (htarget why)
  | ok text => exact .ok rfl

/-! ## 3. A small class with methods

A folder with one abstract class, whose methods are `m`, `n`, or both of them. -/

namespace MemberSample

/-- The names in the class file: its own, those of methods, and two descriptors. The second
descriptor is malformed. -/
def poolBytes : List UInt8 := [
  0, 7,
  1, 0, 3, 112, 47, 65,
  7, 0, 1,
  1, 0, 1, 109,
  1, 0, 1, 110,
  1, 0, 3, 40, 41, 86,
  1, 0, 1, 40]

/-- The bytes of a method, by its flags and the indices of its name and descriptor. -/
def methodBytes (flags name descriptor : UInt8) : List UInt8 :=
  [0, flags, 0, name, 0, descriptor, 0, 0]

/-- The bytes of the class with one or two methods. -/
def bytes (methods : List (List UInt8)) : List UInt8 :=
  [0xCA, 0xFE, 0xBA, 0xBE, 0, 0, 0, 52] ++ poolBytes
    ++ [0x04, 0x21, 0, 2, 0, 0, 0, 0, 0, 0, 0, .ofNat methods.length] ++ methods.flatten ++ [0, 0]

def method (flags : Nat) (name descriptor : String) : MethodInfo :=
  ⟨flags, name, descriptor, none, [], none⟩

def classFile (methods : List MethodInfo) : ClassFile :=
  ⟨52, 0, 0x421, "p.A", none, [], none, [], methods, [], [], none⟩

def disk (content : List UInt8) : Disk where
  nodes := [(["a"], .folder), (["a", "p"], .folder), (["a", "p", "A.class"], .file ⟨content.toArray⟩)]

def handle : Handle where
  target := Sample.target
  own := .folder [("p.A", ⟨.root, ["a", "p", "A.class"]⟩)]
  dependencies := []
  loaded := []

def table (file : ClassFile) : ClassTable where
  own := ["p.A"]
  defined := ["p.A"]
  lookUp name := if name = "p.A" then .ok (some ⟨file, false⟩) else .ok none

/-- What a scan knows of the class: it refers to nothing. -/
def known (methods : List MethodInfo) : Universe where
  records := [("p.A", .ofClassFile false (classFile methods))]
  candidates := ["p.A"]
  recorded := by simp

theorem ofFiles_eq_table (file : ClassFile) : .ofFiles [("p.A", file)] = table file :=
  congrArg (ClassTable.mk ["p.A"] ["p.A"]) (funext (ClassTable.lookUp_ofFiles_cons "p.A" file))

theorem table_handle {content : List UInt8} {file : ClassFile}
    (hp : ClassFile.parse content = .ok file) : handle.table (disk content) [] = table file := by
  rw [← ofFiles_eq_table]
  exact Handle.table_of_folder rfl rfl (List.pairwise_singleton _ _) (.cons ⟨rfl, _, rfl, hp⟩ .nil)

/-- A table of one class file is that file under its name. -/
theorem file?_table {file c : ClassFile} {name : String} (h : (table file).file? name = some c) :
    name = "p.A" ∧ c = file := by
  obtain ⟨loaded, hl, rfl⟩ := ClassTable.file?_eq_some.mp h
  simp only [table] at hl
  split_ifs at hl with hname
  · cases hl
    exact ⟨hname, rfl⟩
  · cases hl

/-- Tables of related class files are the same up to the relation. -/
theorem sameUpTo_table {R : ClassFile → ClassFile → Prop} {file file' : ClassFile}
    (h : R file file') : (table file).SameUpTo Eq R (table file') where
  own := rfl
  defined _ := Iff.rfl
  lookUp name := by
    by_cases hA : name = "p.A"
    · simp only [table, hA, if_true]
      exact .ok (.some ⟨rfl, h⟩)
    · simp only [table, hA, if_false]
      exact .ok .none

/-- The scan of the class is put together from its stages. -/
theorem renderTable_eq_ok {methods : List MethodInfo} {text : String}
    (hk : (Universe.enumerate (table (classFile methods)) (Sample.settings []).exclusion
      Sample.target).outcome = .ok (known methods))
    (ht : ∀ c, (Snapshot.render (Sample.sampleView (known methods) c)
      [.ofClassFile false (classFile methods)]).outcome = .ok text) :
    (renderTable (Sample.settings []) (table (classFile methods)) Sample.target).outcome =
      .ok text := by
  have hm : (Metadata.resolve (table (classFile methods))).outcome = .ok none := by
    rw [Metadata.outcome_resolve]
    rfl
  have hclass : ∀ c, (Sample.sampleView (known methods) c).exclusionReason?
      (.ofClassFile false (classFile methods)) = .ok none := fun c => by
    have ha : (classFile methods).isAnnotationType = false := by cbv
    refine View.exclusionReason?_eq_none_iff.mpr
      ⟨View.declaredReason?_eq_none_iff.mpr ?_, by simp [Sample.sampleView]⟩
    refine ⟨by cbv, rfl, fun hi => ?_, rfl, by cbv, rfl, by cbv⟩
    rw [ClassRecord.isAnnotationType_ofClassFile, ha] at hi
    cases hi
  have hselected : ∀ c, ((Sample.sampleView (known methods) c).selectFrom
      (known methods).classes).outcome = .ok [.ofClassFile false (classFile methods)] := fun c => by
    have hclasses : (known methods).classes = [.ofClassFile false (classFile methods)] := rfl
    rw [hclasses]
    simp only [View.selectFrom, View.includesClass, hclass]
    rfl
  refine Report.outcome_bind_eq_ok.mpr ⟨_, hk, Report.outcome_bind_eq_ok.mpr ⟨(), rfl, ?_⟩⟩
  refine Report.outcome_bind_eq_ok.mpr ⟨_, hm, Report.outcome_bind_eq_ok.mpr
    ⟨[.ofClassFile false (classFile methods)], ?_, ?_⟩⟩
  · exact Report.outcome_bind_eq_ok.mpr
      ⟨_, hselected _, congrArg Except.ok (List.mergeSort_singleton _)⟩
  · exact Report.outcome_bind_eq_ok.mpr ⟨_, Report.outcome_mapFault_eq_ok.mpr (ht _), rfl⟩

theorem render_eq_ok {content : List UInt8} {methods : List MethodInfo} {text : String}
    (hp : ClassFile.parse content = .ok (classFile methods))
    (hk : (Universe.enumerate (table (classFile methods)) (Sample.settings []).exclusion
      Sample.target).outcome = .ok (known methods))
    (ht : ∀ c, (Snapshot.render (Sample.sampleView (known methods) c)
      [.ofClassFile false (classFile methods)]).outcome = .ok text) :
    (render (Sample.settings []) (disk content) [] handle).outcome = .ok text := by
  rw [render, table_handle hp]
  exact renderTable_eq_ok hk ht

/-- The class with one public method. -/
def publicOnly : ClassFile := classFile [method 1 "m" "()V"]

def bytesPublicOnly : List UInt8 := bytes [methodBytes 1 3 5]

theorem parse_bytesPublicOnly : ClassFile.parse bytesPublicOnly = .ok publicOnly := by cbv

theorem renderTable_publicOnly :
    (renderTable (Sample.settings []) (table publicOnly) Sample.target).outcome =
      .ok "public abstract class p.A\n  public void m()\n##\n" :=
  renderTable_eq_ok (by cbv) fun c => by cbv

end MemberSample

end Scan

end ApiSurface
