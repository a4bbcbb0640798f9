/-
ApiSurface.Proofs.Visibility.InternalMarkers — which applied annotations mark internal code.

An annotation type that a class in scope carries marks internal code by its name if its
class file is stored under that name. A name that nothing defines marks internal code
only if the first reference to it applies it as an annotation: if a class that comes
earlier extends or implements it, it is taken for a class or interface, and so are all
its later uses (`mem_internal_iff_firstRole?`).

Whatever is internal is not published: no class that a scan includes carries it, and no
public method or field does.
-/
import ApiSurface.Proofs.ClassFile.RoundTrip
import ApiSurface.Proofs.Scan.FolderTargets
import ApiSurface.Proofs.Universe.FirstReference

namespace ApiSurface

/-! ## 1. What is internal is not published -/

namespace View

theorem not_mem_of_hasInternal_eq_false {c : Classification} {names : List String} {name : String}
    (h : c.hasInternal names = false) (hname : name ∈ c.internal) : name ∉ names := fun hm => by
  rw [Bool.eq_false_iff, Ne, Classification.hasInternal_iff] at h
  exact h ⟨name, hm, hname⟩

/-- Nothing that a scan includes carries an internal annotation. -/
theorem not_mem_of_includedClasses {v : View} {classes : List ClassRecord} {r : ClassRecord}
    {name : String} (hc : v.includedClasses.outcome = .ok classes) (hr : r ∈ classes)
    (hname : name ∈ v.classification.internal) :
    name ∉ r.annotations ∧ (∀ m ∈ v.publicMethods r, name ∉ m.annotations) ∧
      ∀ f ∈ v.publicFields r, name ∉ f.annotations := by
  refine ⟨?_, fun m hm => ?_, fun f hf => ?_⟩
  · obtain ⟨selected, hs, hc⟩ := Report.outcome_bind_eq_ok.mp hc
    cases hc
    obtain ⟨rfl, -⟩ := selectFrom_eq_ok hs
    have hp := (List.mem_filter.mp (mem_sortedByName.mp hr)).2
    obtain ⟨hd, -⟩ := exclusionReason?_eq_none_iff.mp (publishes_eq_true_iff.mp hp)
    exact not_mem_of_hasInternal_eq_false (declaredReason?_eq_none_iff.mp hd).2.2.2.1 hname
  · have hi := (List.mem_filter.mp hm).2
    simp only [includesMethod, Bool.and_eq_true, Bool.not_eq_true'] at hi
    exact not_mem_of_hasInternal_eq_false hi.1.1.2 hname
  · have hi := (List.mem_filter.mp hf).2
    simp only [includesField, Bool.and_eq_true, Bool.not_eq_true'] at hi
    exact not_mem_of_hasInternal_eq_false hi.2 hname

end View

/-! ## 2. Internal names of a universe -/

namespace Universe

variable {t : ClassTable} {x : Exclusion} {u : Universe}

/-- A known class file is of an annotation type and carries a name. -/
def DefinesAnnotation (u : Universe) (t : ClassTable) (name : String) : Prop :=
  ∃ key c, u.knows key = true ∧ t.file? key = some c ∧ c.isAnnotationType = true ∧ c.name = name

/-- Nothing defines a name, and the first reference to it applies it as an annotation. -/
def AppliesFirst (u : Universe) (t : ClassTable) (name : String) : Prop :=
  t.lookUp name = .ok none ∧ u.firstRole? name = some .annotationType

/-- The internal annotations are the one that is internal always, and those known or
applied first whose names say so. -/
theorem Traces.mem_internal_iff_firstRole? (ht : t.Coherent) (h : Traces t x [] [] u)
    (horder : FollowsInOrder t u.references [] u) {m : Markers} {name : String} :
    name ∈ (Classification.ofUniverse u m).internal ↔
      name = m.defaultInternal ∨
        m.internalSuffix.toList <:+ name.toList ∧
          (u.DefinesAnnotation t name ∨ u.AppliesFirst t name) := by
  rw [Classification.mem_internal, Markers.marksInternal_iff]
  refine or_congr Iff.rfl (and_congr Iff.rfl ⟨?_, ?_⟩)
  · rintro ⟨r, hr, rfl⟩
    obtain ⟨hm, hann⟩ := List.mem_filter.mp hr
    obtain ⟨⟨key, r⟩, he, rfl⟩ := List.mem_map.mp hm
    have hrec : u.record? key = some r := h.record?_eq_some_iff.mpr he
    rcases h.record?_cases ht hrec with ⟨isExternal, c, hc, rfl⟩ | ⟨role, _, hnone, -, -, rfl⟩
    · rw [ClassRecord.isAnnotationType_ofClassFile] at hann
      exact .inl ⟨key, c, knows_iff_exists.mpr ⟨_, hrec⟩, hc, hann, rfl⟩
    · obtain ⟨role', hfirst, heq⟩ := (horder.record?_of_undefined h hnone).mp hrec
      have hkind : role' = .annotationType := by
        rw [heq] at hann
        exact of_decide_eq_true hann
      exact .inr ⟨hnone, by rw [← hkind]; exact hfirst⟩
  · rintro (⟨key, c, hk, hc, hann, rfl⟩ | ⟨hnone, hfirst⟩)
    · obtain ⟨isExternal, hrec⟩ := h.record?_of_file? ht hk hc
      refine ⟨_, List.mem_filter.mpr ⟨List.mem_map_of_mem (h.record?_eq_some_iff.mp hrec), ?_⟩, rfl⟩
      rwa [ClassRecord.isAnnotationType_ofClassFile]
    · have hrec := (horder.record?_of_undefined h hnone).mpr ⟨_, hfirst, rfl⟩
      exact ⟨_, List.mem_filter.mpr ⟨List.mem_map_of_mem (h.record?_eq_some_iff.mp hrec), rfl⟩, rfl⟩

end Universe

/-! ## 3. Applied markers -/

namespace Scan

/-- A marker that a known class or one of its members carries is internal if it resolves
to an annotation type that is stored under its own name, and also if it resolves nowhere
and is applied as an annotation first. Nothing else is internal, apart from the one name
that is so always; and what is internal is carried by no class, method or field that a
scan shows. -/
theorem applied_marker_internal {s : Settings} {d : Disk} {home : Place} {target : Path}
    {classpath : List Path} {h : Handle} {u : Universe}
    (hopen : (Handle.resolve d home target classpath).outcome = .ok h)
    (hu : (Universe.enumerate (h.table d home) s.exclusion h.target).outcome = .ok u) :
    (∀ bearer name, u.knows bearer = true → (h.table d home).Refers bearer name .annotationType →
      s.markers.internalSuffix.toList <:+ name.toList →
        (∃ c, (h.table d home).file? name = some c ∧ c.isAnnotationType = true ∧ c.name = name) ∨
          u.AppliesFirst (h.table d home) name →
        name ∈ (Classification.ofUniverse u s.markers).internal) ∧
    (∀ name ∈ (Classification.ofUniverse u s.markers).internal,
      name = s.markers.defaultInternal ∨
        s.markers.internalSuffix.toList <:+ name.toList ∧
          (u.DefinesAnnotation (h.table d home) name ∨ u.AppliesFirst (h.table d home) name)) ∧
    ∀ name ∈ (Classification.ofUniverse u s.markers).internal, ∀ metadata classes,
      (view s u metadata).includedClasses.outcome = .ok classes → ∀ r ∈ classes,
        name ∉ r.annotations ∧ (∀ m ∈ (view s u metadata).publicMethods r, name ∉ m.annotations) ∧
          ∀ f ∈ (view s u metadata).publicFields r, name ∉ f.annotations := by
  have ht := Handle.coherent_table hopen
  have htr := Universe.enumerate_traces ht hu
  have horder := Universe.enumerate_followsInOrder ht hu
  have hinternal : ∀ name, name ∈ (Classification.ofUniverse u s.markers).internal ↔ _ :=
    fun name => htr.mem_internal_iff_firstRole? ht horder
  refine ⟨fun bearer name hbearer hrefers hsuffix hwhy => ?_, fun name => (hinternal name).mp,
    fun name hname metadata classes hc r hr => View.not_mem_of_includedClasses hc hr hname⟩
  refine (hinternal name).mpr (.inr ⟨hsuffix, hwhy.imp_left ?_⟩)
  rintro ⟨c, hc, hann, hname⟩
  have hscope := ((htr.knows_iff_inScope ht).mp hbearer).step hrefers
  exact ⟨name, c, (htr.knows_iff_inScope ht).mpr hscope, hc, hann, hname⟩

/-! ## 4. A marker that is missed

A folder with one class, which carries two markers that nothing defines and implements one
of them. -/

namespace MarkedSample

def entries : List Constant := [
  .utf8 "p/A", .classRef 1, .utf8 "q/I", .classRef 3, .utf8 "RuntimeVisibleAnnotations",
  .utf8 "Lq/I;", .utf8 "Lr/I;"]

def poolBytes : List UInt8 := [
  0, 8,
  1, 0, 3, 112, 47, 65,
  7, 0, 1,
  1, 0, 3, 113, 47, 73,
  7, 0, 3,
  1, 0, 25, 82, 117, 110, 116, 105, 109, 101, 86, 105, 115, 105, 98, 108, 101,
    65, 110, 110, 111, 116, 97, 116, 105, 111, 110, 115,
  1, 0, 5, 76, 113, 47, 73, 59,
  1, 0, 5, 76, 114, 47, 73, 59]

/-- The body of the attribute with the annotations. -/
def body : List UInt8 := [0, 2, 0, 6, 0, 0, 0, 7, 0, 0]

/-- The bytes of a public class `p.A` that implements `q.I` and carries `q.I` and `r.I`. -/
def bytes : List UInt8 :=
  [0xCA, 0xFE, 0xBA, 0xBE, 0, 0, 0, 52] ++ poolBytes
    ++ [0, 0x21, 0, 2, 0, 0, 0, 1, 0, 4, 0, 0, 0, 0, 0, 1, 0, 5, 0, 0, 0, 10] ++ body

/-- What the bytes hold. -/
def classFile : ClassFile :=
  ⟨52, 0, 0x21, "p.A", none, ["q.I"], none, [], [], [⟨"q.I", true, []⟩, ⟨"r.I", true, []⟩], [], none⟩

theorem written_poolBytes : Pool.Written entries poolBytes := by
  have hchunks : List.Forall₂ Constant.Written entries _ :=
    .cons (Constant.written_utf8 (by decide)) <| .cons (.classRef (by decide)) <|
    .cons (Constant.written_utf8 (by decide)) <| .cons (.classRef (by decide)) <|
    .cons (Constant.written_utf8 (by decide)) <| .cons (Constant.written_utf8 (by decide)) <|
    .cons (Constant.written_utf8 (by decide)) .nil
  exact ⟨by decide, _, hchunks, by decide⟩

/-- An annotation without values has the index of its type and a count of zero. -/
theorem written_annotationBytes {descriptor type : String} {l : List UInt8}
    (h : TextAt entries descriptor l) (htype : binaryNameOfDescriptor descriptor = type) :
    Annotation.Written entries ⟨type, true, []⟩ (l ++ [0, 0]) := by
  subst htype
  exact @Value.Written.annotation entries descriptor l [] [] h (by decide) .nil rfl (by simp)
    (by simp)

theorem written_bytes : classFile.Written bytes := by
  have hname : ClassAt entries classFile.name [0, 2] :=
    ⟨2, 1, "p/A", ⟨entries.take 1, entries.drop 2, rfl, rfl⟩, ⟨[], entries.drop 1, rfl, rfl⟩,
      by decide, rfl⟩
  have hinterface : ClassAt entries "q.I" [0, 4] :=
    ⟨4, 3, "q/I", ⟨entries.take 3, entries.drop 4, rfl, rfl⟩,
      ⟨entries.take 2, entries.drop 3, rfl, rfl⟩, by decide, rfl⟩
  have hinterfaces : Counted (ClassAt entries) classFile.interfaces [0, 1, 0, 4] :=
    ⟨by decide, _, .cons hinterface .nil, rfl⟩
  have hfields : Counted (FieldInfo.Written entries) classFile.fields [0, 0] :=
    ⟨by decide, [], .nil, rfl⟩
  have hmethods : Counted (MethodInfo.Written entries) classFile.methods [0, 0] :=
    ⟨by decide, [], .nil, rfl⟩
  have hq : TextAt entries "Lq/I;" [0, 6] := ⟨6, ⟨entries.take 5, entries.drop 6, rfl, rfl⟩, rfl⟩
  have hr : TextAt entries "Lr/I;" [0, 7] := ⟨7, ⟨entries.take 6, entries.drop 7, rfl, rfl⟩, rfl⟩
  have hattribute : Attribute.Written entries ⟨"RuntimeVisibleAnnotations", body⟩
      ([0, 5, 0, 0, 0, 10] ++ body) :=
    ⟨[0, 5], ⟨5, ⟨entries.take 4, entries.drop 5, rfl, rfl⟩, rfl⟩, by decide, rfl⟩
  have hattributes : Counted (Attribute.Written entries) [⟨"RuntimeVisibleAnnotations", body⟩]
      ([0, 1, 0, 5, 0, 0, 0, 10] ++ body) := ⟨by decide, _, .cons hattribute .nil, rfl⟩
  have hannotations : Attribute.HoldAnnotations entries [⟨"RuntimeVisibleAnnotations", body⟩]
      classFile.annotations := by
    refine ⟨[classFile.annotations], .cons ⟨by decide, [[0, 6, 0, 0], [0, 7, 0, 0]], ?_, rfl⟩ .nil, rfl⟩
    exact .cons ⟨written_annotationBytes hq (by decide), rfl⟩ <|
      .cons ⟨written_annotationBytes hr (by decide), rfl⟩ .nil
  exact .intro (by decide) (by decide) (by decide) written_poolBytes hname rfl hinterfaces
    hfields hmethods hattributes (by simp [Attribute.Gives, classFile]) ⟨[], .nil, rfl⟩
    (by simp [Attribute.Gives, classFile]) hannotations

def disk : Disk where
  nodes := [(["a"], .folder), (["a", "p"], .folder), (["a", "p", "A.class"], .file ⟨bytes.toArray⟩)]

def target : Path := ⟨.root, ["a"]⟩

/-- The settings of a scan in which markers end in `.I`. -/
def settings : Settings where
  root := ⟨.root, []⟩
  sources := [target]
  classpath := []
  outputFolder := ⟨.root, []⟩
  excludedPackages := []
  excludedClasses := []
  excludedMethods := []
  isVerbose := false
  jobs := 1
  markers := { Markers.standard with internalSuffix := ".I" }

def handle : Handle where
  target := target
  own := .folder [("p.A", ⟨.root, ["a", "p", "A.class"]⟩)]
  dependencies := []
  loaded := []

def table : ClassTable where
  own := ["p.A"]
  defined := ["p.A"]
  lookUp name := if name = "p.A" then .ok (some ⟨classFile, false⟩) else .ok none

/-- What a scan knows: `q.I` is taken for an interface. -/
def known : Universe where
  records := [("p.A", .ofClassFile false classFile), ("q.I", .placeholder "q.I" .interface),
    ("r.I", .placeholder "r.I" .annotationType)]
  candidates := ["p.A", "q.I", "r.I"]
  recorded := by simp [List.lookup_cons]

theorem resolve_eq : (Handle.resolve disk [] target []).outcome = .ok handle := by
  refine Handle.resolve_folder ["a"] rfl rfl ?_ rfl rfl rfl
  have hfiles : disk.filesBelow ["a"] = [["p", "A.class"]] := List.mergeSort_singleton _
  rw [hfiles]
  rfl

theorem parse_bytes : ClassFile.parse bytes = .ok classFile := by
  rw [ClassFile.parse, written_bytes.takes.run]
  rfl

theorem ofFiles_eq_table : .ofFiles [("p.A", classFile)] = table :=
  congrArg (ClassTable.mk ["p.A"] ["p.A"]) (funext (ClassTable.lookUp_ofFiles_cons "p.A" classFile))

theorem table_eq : handle.table disk [] = table := by
  rw [← ofFiles_eq_table]
  refine Handle.table_of_folder rfl rfl (List.pairwise_singleton _ _) ?_
  exact .cons ⟨rfl, _, rfl, parse_bytes⟩ .nil

/-- The universe of the class alone. -/
def admitted : Universe := Universe.empty.add "p.A" (.ofClassFile false classFile) true

/-- What the class refers to, in the order in which it is met. -/
def references : List (String × ClassKind) :=
  [("q.I", .interface), ("q.I", .annotationType), ("r.I", .annotationType)]

theorem references_classFile : (ClassRecord.ofClassFile false classFile).references = references := by
  have hsorted : Names.sorted (Names.distinct ["q.I", "r.I"]) = ["q.I", "r.I"] :=
    List.mergeSort_of_pairwise (by decide)
  exact congrArg (fun names => ("q.I", .interface) :: names.map (·, ClassKind.annotationType)) hsorted

/-- `q.I` is put down as an interface, and is known when it is met again as an annotation type. -/
theorem close_references : Universe.close table [] references admitted = .ok known := by
  rw [references, Universe.close, if_neg (by decide), dif_neg (by decide)]
  rw [Universe.close, if_pos (by decide)]
  rw [Universe.close, if_neg (by decide), dif_neg (by decide), Universe.close]
  rfl

theorem enumerate_eq : (Universe.enumerate table settings.exclusion target).outcome = .ok known := by
  have hown : (Universe.addOwn table settings.exclusion table.own .empty []).outcome =
      .ok (admitted, references) := by
    rw [← references_classFile]
    rfl
  exact Report.outcome_bind_eq_ok.mpr ⟨_, hown,
    Report.outcome_bind_eq_ok.mpr ⟨known, close_references, rfl⟩⟩

theorem firstRole_known : known.firstRole? "r.I" = some .annotationType := by
  rw [Universe.firstRole?, Universe.references, known, List.flatMap_cons, references_classFile]
  rfl

end MarkedSample

/-- Of the two markers on the small class only the one that it does not implement is
internal. -/
theorem applied_marker_internal_of_sample :
    (Universe.enumerate MarkedSample.table MarkedSample.settings.exclusion
      MarkedSample.target).outcome = .ok MarkedSample.known ∧
    "r.I" ∈ (Classification.ofUniverse MarkedSample.known MarkedSample.settings.markers).internal ∧
      "q.I" ∉ (Classification.ofUniverse MarkedSample.known MarkedSample.settings.markers).internal := by
  have h := applied_marker_internal MarkedSample.resolve_eq
    (by rw [MarkedSample.table_eq]; exact MarkedSample.enumerate_eq)
  rw [MarkedSample.table_eq] at h
  obtain ⟨happlied, honly, -⟩ := h
  refine ⟨MarkedSample.enumerate_eq, ?_, fun hq => ?_⟩
  · have hcarried : MarkedSample.classFile.RefersTo "r.I" .annotationType :=
      @ClassFile.RefersTo.ofClass _ ⟨"r.I", true, []⟩ (List.mem_cons_of_mem _ List.mem_cons_self)
    exact happlied "p.A" "r.I" rfl ⟨_, rfl, hcarried⟩ (by decide)
      (.inr ⟨rfl, MarkedSample.firstRole_known⟩)
  · rcases honly _ hq with hdefault | ⟨-, ⟨key, c, -, hc, hann, -⟩ | ⟨-, hfirst⟩⟩
    · revert hdefault
      decide
    · obtain ⟨loaded, hl, rfl⟩ := ClassTable.file?_eq_some.mp hc
      simp only [MarkedSample.table] at hl
      split_ifs at hl
      · cases hl
        revert hann
        decide
      · cases hl
    · revert hfirst
      decide

end Scan

end ApiSurface
