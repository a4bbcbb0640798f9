/-
ApiSurface.Proofs.Scan.PublicInterface — a text shows the public interface, all of it
and nothing else.

`ClassTable.IsPublic` says of a class file of the target, without a universe and
without an order of rules, that it belongs to the public interface. The blocks of a
text that is rendered are those of the public classes, each once and in the order
of their names.

Two conditions are on the classes and not on the scan. A class file that is stored
under another name would be published under its own one; and a name that nothing
defines, referred to both as an annotation and as something else, is an annotation
type or not by the order in which the references are met.

The scan of a sample is evaluated, here and in the modules that build on this one. That
opens many functions of the core library, and the whole of Mathlib is imported for their
equations.
-/
import ApiSurface.Proofs.Scan.FolderTargets
import Mathlib

namespace ApiSurface

/-! ## 1. Public classes -/

namespace Universe.Traces

variable {t : ClassTable} {x : Exclusion} {u : Universe}

/-- The candidates' records carry the candidates' names. -/
theorem map_name_classes (ht : t.Coherent) (h : Traces t x [] [] u) (hnames : t.StoredByName) :
    u.classes.map (·.name) = u.candidates := by
  have hrec : ∀ n ∈ u.candidates, ∃ r, u.record? n = some r ∧ r.name = n := by
    intro n hn
    obtain ⟨r, hr, -⟩ := (h.mem_candidates n).mp hn
    have hr' := h.record?_eq_some_iff.mpr hr
    exact ⟨r, hr', h.name_of_record? ht hnames hr'⟩
  rw [classes_eq_filterMap]
  generalize u.candidates = names at hrec
  induction names with
  | nil => rfl
  | cons n rest ih =>
    obtain ⟨r, hr, hn⟩ := hrec n List.mem_cons_self
    rw [List.filterMap_cons, hr, List.map_cons, hn,
      ih fun n' hn' => hrec n' (List.mem_cons_of_mem _ hn')]

/-- The candidates that the target defines are its admitted classes. -/
theorem mem_classes_iff (ht : t.Coherent) (h : Traces t x [] [] u) (hnames : t.StoredByName)
    {r : ClassRecord} :
    r ∈ u.classes ∧ r.isExternal = false ↔
      t.Admits x r.name ∧ ∃ c, t.file? r.name = some c ∧ r = .ofClassFile false c := by
  constructor
  · rintro ⟨hr, he⟩
    obtain ⟨n, hn, hrec⟩ := mem_classes.mp hr
    have hname := h.name_of_record? ht hnames hrec
    subst hname
    obtain ⟨r', hr', hw⟩ := (h.mem_candidates _).mp hn
    have heq : r' = r := by
      rw [h.record?_eq_some_iff.mpr hr'] at hrec
      exact Option.some.inj hrec
    subst heq
    refine ⟨hw.resolve_right (by simp [he]), ?_⟩
    rcases h.record?_cases ht hrec with ⟨e, c, hc, heq⟩ | ⟨_, _, -, -, -, heq⟩
    · refine ⟨c, hc, ?_⟩
      rw [heq] at he
      cases he
      exact heq
    · rw [heq] at he
      cases he
  · rintro ⟨ha, c, hc, heq⟩
    have hk := (h.knows_iff_inScope ht).mpr ha.inScope
    obtain ⟨e, hr⟩ := h.record?_of_file? ht hk hc
    have he : e = false := (h.isExternal_eq_false_iff ht hr).mpr ha.1
    rw [he, ← heq] at hr
    refine ⟨mem_classes.mpr ⟨r.name, ?_, hr⟩, by rw [heq]; rfl⟩
    exact (h.mem_candidates _).mpr ⟨r, h.record?_eq_some_iff.mp hr, .inl ha⟩

/-- The candidates' records have different names. -/
theorem nodup_classes (ht : t.Coherent) (h : Traces t x [] [] u) (hnames : t.StoredByName) :
    (u.classes.map (·.name)).Nodup := by
  rw [h.map_name_classes ht hnames]
  exact h.nodup_candidates

end Universe.Traces

/-! ## 3. Public candidates -/

namespace Scan

variable {s : Settings} {t : ClassTable} {u : Universe} {metadata : Option Metadata}

namespace Sample

/-- A public class `p.A` that extends `p.B`, without members. -/
def bytesOfA : List UInt8 := [
  0xCA, 0xFE, 0xBA, 0xBE, 0, 0, 0, 52, 0, 5,
  1, 0, 3, 112, 47, 65,
  7, 0, 1,
  1, 0, 3, 112, 47, 66,
  7, 0, 3,
  0, 0x21, 0, 2, 0, 4, 0, 0, 0, 0, 0, 0, 0, 0]

/-- A public class `p.B` that extends `q.C`, without members. -/
def bytesOfB : List UInt8 := [
  0xCA, 0xFE, 0xBA, 0xBE, 0, 0, 0, 52, 0, 5,
  1, 0, 3, 112, 47, 66,
  7, 0, 1,
  1, 0, 3, 113, 47, 67,
  7, 0, 3,
  0, 0x21, 0, 2, 0, 4, 0, 0, 0, 0, 0, 0, 0, 0]

/-- What the bytes of both classes hold, apart from their names. -/
def classFile (name superclass : String) : ClassFile :=
  ⟨52, 0, 0x21, name, some superclass, [], none, [], [], [], [], none⟩

def disk : Disk where
  nodes := [
    (["a"], .folder), (["a", "p"], .folder),
    (["a", "p", "A.class"], .file ⟨bytesOfA.toArray⟩),
    (["a", "p", "B.class"], .file ⟨bytesOfB.toArray⟩)]

def target : Path := ⟨.root, ["a"]⟩

/-- The settings of a scan that leaves some classes out. -/
def settings (excluded : List String) : Settings where
  root := ⟨.root, []⟩
  sources := [target]
  classpath := []
  outputFolder := ⟨.root, []⟩
  excludedPackages := []
  excludedClasses := excluded.map some
  excludedMethods := []
  isVerbose := false
  jobs := 1
  markers := .standard

def handle : Handle where
  target := target
  own := .folder [("p.A", ⟨.root, ["a", "p", "A.class"]⟩), ("p.B", ⟨.root, ["a", "p", "B.class"]⟩)]
  dependencies := []
  loaded := []

def table : ClassTable where
  own := ["p.A", "p.B"]
  defined := ["p.A", "p.B"]
  lookUp name :=
    if name = "p.A" then .ok (some ⟨classFile "p.A" "p.B", false⟩)
    else if name = "p.B" then .ok (some ⟨classFile "p.B" "q.C", false⟩)
    else .ok none

theorem filesBelow_target : disk.filesBelow ["a"] = [["p", "A.class"], ["p", "B.class"]] :=
  List.mergeSort_of_pairwise (by decide)

theorem resolve_target : (Handle.resolve disk [] target []).outcome = .ok handle := by
  refine Handle.resolve_folder ["a"] rfl rfl ?_ rfl rfl rfl
  rw [filesBelow_target]
  rfl

theorem parse_bytesOfA : ClassFile.parse bytesOfA = .ok (classFile "p.A" "p.B") := by cbv

theorem parse_bytesOfB : ClassFile.parse bytesOfB = .ok (classFile "p.B" "q.C") := by cbv

/-- The class files of the target. -/
def files : List (String × ClassFile) :=
  [("p.A", classFile "p.A" "p.B"), ("p.B", classFile "p.B" "q.C")]

theorem ofFiles_eq_table : .ofFiles files = table := by
  have hlookUp : (ClassTable.ofFiles files).lookUp = table.lookUp := by
    funext name
    rw [files, ClassTable.lookUp_ofFiles_cons, ClassTable.lookUp_ofFiles_cons]
    rfl
  exact congrArg (ClassTable.mk table.own table.defined) hlookUp

theorem table_handle : handle.table disk [] = table := by
  rw [← ofFiles_eq_table]
  refine Handle.table_of_folder rfl rfl (by decide) ?_
  exact .cons ⟨rfl, _, rfl, parse_bytesOfA⟩ (.cons ⟨rfl, _, rfl, parse_bytesOfB⟩ .nil)

/-- Both classes refer to their superclasses and to nothing else. -/
theorem refers_table {a b : String} {role : ClassKind} (h : table.Refers a b role) :
    (a = "p.A" ∧ b = "p.B" ∨ a = "p.B" ∧ b = "q.C") ∧ role = .ordinary := by
  obtain ⟨c, hc, hr⟩ := h
  have hclass : a = "p.A" ∧ c = classFile "p.A" "p.B" ∨ a = "p.B" ∧ c = classFile "p.B" "q.C" := by
    by_cases hA : a = "p.A"
    · exact .inl ⟨hA, by simpa [ClassTable.file?, table, hA, eq_comm] using hc⟩
    · by_cases hB : a = "p.B"
      · exact .inr ⟨hB, by simpa [ClassTable.file?, table, hB, eq_comm] using hc⟩
      · simp [ClassTable.file?, table, hA, hB] at hc
  rcases hclass with ⟨rfl, rfl⟩ | ⟨rfl, rfl⟩ <;> cases hr <;> simp_all [classFile]

theorem storedByName_table : table.StoredByName := by
  intro name c hc
  simp only [ClassTable.file?, table] at hc
  split at hc
  · next loaded hl =>
    cases hc
    split_ifs at hl with hA hB
    · cases hl
      exact hA.symm
    · cases hl
      exact hB.symm
    · simp at hl
  · cases hc

theorem hasSingleRoles_table (x : Exclusion) : table.HasSingleRoles x := by
  intro name _ a b role role' _ _ hr hr'
  rw [(refers_table hr).2, (refers_table hr').2]

/-- The view of a scan of the target. -/
def sampleView (known : Universe) (c : Classification) : View := ⟨known, c, .standard, [], none⟩

/-- Neither class is annotated, so each is published whatever the classification. -/
theorem exclusionReason?_classFile (known : Universe) (c : Classification)
    (name superclass : String) (h : Markers.standard.isInternalPackage name = false) :
    (sampleView known c).exclusionReason? (.ofClassFile false (classFile name superclass)) =
      .ok none := by
  have ha : (classFile name superclass).isAnnotationType = false := by cbv
  refine View.exclusionReason?_eq_none_iff.mpr
    ⟨View.declaredReason?_eq_none_iff.mpr ?_, by simp [sampleView]⟩
  refine ⟨h, rfl, fun hi => ?_, rfl, by cbv, rfl, by cbv⟩
  rw [ClassRecord.isAnnotationType_ofClassFile, ha] at hi
  cases hi

theorem exclusionReason?_missing (known : Universe) (c : Classification) :
    (sampleView known c).exclusionReason? (.placeholder "q.C" .ordinary) =
      .ok (some .external) := by
  have h : Markers.standard.isInternalPackage "q.C" = false := by decide
  simp [View.exclusionReason?, View.declaredReason?, sampleView, ClassRecord.placeholder, h]

/-- A scan of the target is put together from its stages. -/
theorem render_eq_ok {excluded : List String} (known : Universe) (classes : List ClassRecord)
    {text : String}
    (hk : (Universe.enumerate table (settings excluded).exclusion target).outcome = .ok known)
    (hc : ∀ c, ((sampleView known c).selectFrom known.classes).outcome = .ok classes)
    (hsorted : View.sortedByName classes = classes)
    (ht : ∀ c, (Snapshot.render (sampleView known c) classes).outcome = .ok text) :
    (render (settings excluded) disk [] handle).outcome = .ok text := by
  have hm : (Metadata.resolve table).outcome = .ok none := by cbv
  rw [render, table_handle]
  refine Report.outcome_bind_eq_ok.mpr ⟨_, hk, Report.outcome_bind_eq_ok.mpr ⟨(), rfl, ?_⟩⟩
  refine Report.outcome_bind_eq_ok.mpr ⟨_, hm, Report.outcome_bind_eq_ok.mpr ⟨classes, ?_, ?_⟩⟩
  · exact Report.outcome_bind_eq_ok.mpr ⟨classes, hc _, congrArg Except.ok hsorted⟩
  · exact Report.outcome_bind_eq_ok.mpr ⟨_, Report.outcome_mapFault_eq_ok.mpr (ht _), rfl⟩

/-- What a scan of both classes knows. -/
def knownClasses : Universe where
  records := [
    ("p.A", .ofClassFile false (classFile "p.A" "p.B")),
    ("p.B", .ofClassFile false (classFile "p.B" "q.C")),
    ("q.C", .placeholder "q.C" .ordinary)]
  candidates := ["p.A", "p.B", "q.C"]
  recorded := by simp [List.lookup_cons]

/-- The lines of both classes. -/
def text : String := "public class p.A extends p.B\n##\npublic class p.B extends q.C\n##\n"

theorem render_target : (render (settings []) disk [] handle).outcome = .ok text := by
  refine render_eq_ok knownClasses
    [.ofClassFile false (classFile "p.A" "p.B"), .ofClassFile false (classFile "p.B" "q.C")]
    (by cbv) (fun c => ?_) (List.mergeSort_of_pairwise (by decide)) (fun c => by cbv)
  have ha := exclusionReason?_classFile knownClasses c "p.A" "p.B" (by decide)
  have hb := exclusionReason?_classFile knownClasses c "p.B" "q.C" (by decide)
  have hclasses : knownClasses.classes = [.ofClassFile false (classFile "p.A" "p.B"),
      .ofClassFile false (classFile "p.B" "q.C"), .placeholder "q.C" .ordinary] := rfl
  rw [hclasses]
  simp only [View.selectFrom, View.includesClass, ha, hb, exclusionReason?_missing]
  rfl

end Sample

end Scan

end ApiSurface
