/-
ApiSurface.Proofs.Scan.LeftOutMethods — leaving out a method leaves out nothing else.

Settings name a method by its class and by its name with the descriptor behind it. The two
parts are told apart by the bracket with which a descriptor begins, so such an entry stands
for one name and one descriptor (`SpellsMethod.eq_of_append_eq`). The text of a scan that
leaves out more methods is the old text without the lines of these methods, and the order
in which they are named does not matter (`Scan.render_leaves_out_methods`).

Nothing checks that the descriptor of a method begins with a bracket as long as its generic
signature can be read. A class with such a method can lose it to an entry for a method of
another name.
-/
import ApiSurface.Proofs.Scan.FolderTargets
import ApiSurface.Proofs.Scan.PublicInterface
import ApiSurface.Proofs.Snapshot.Outline
import ApiSurface.Settings.Overload

namespace ApiSurface

/-! ## 1. Methods by name and descriptor -/

/-- A method of a class, by its name and its descriptor. -/
structure MethodKey where
  className : String
  name : String
  descriptor : String
deriving DecidableEq

/-- The method as settings name it: its name with the descriptor behind it. -/
def MethodKey.signature (k : MethodKey) : String := k.name ++ k.descriptor

/-- A name without brackets in front of a descriptor, which begins with one. -/
structure SpellsMethod (name descriptor : String) : Prop where
  name : '(' ∉ name.toList
  descriptor : descriptor.toList.head? = some '('

/-- The name is what stands before the first bracket. -/
theorem SpellsMethod.takeWhile_append {name descriptor : String} (h : SpellsMethod name descriptor) :
    (name ++ descriptor).toList.takeWhile (· != '(') = name.toList := by
  have hname : ∀ c ∈ name.toList, (c != '(') = true := by
    intro c hc
    have : c ≠ '(' := fun e => h.name (e ▸ hc)
    simpa using this
  obtain ⟨rest, hrest⟩ := List.head?_eq_some_iff.mp h.descriptor
  rw [String.toList_append, List.takeWhile_append_of_pos hname, hrest]
  simp

/-- A name with a descriptor behind it can be told apart in one way. -/
theorem SpellsMethod.eq_of_append_eq {name descriptor name' descriptor' : String}
    (h : SpellsMethod name descriptor) (h' : SpellsMethod name' descriptor')
    (heq : name ++ descriptor = name' ++ descriptor') :
    name = name' ∧ descriptor = descriptor' := by
  have hname : name = name' := by
    rw [← String.toList_inj, ← h.takeWhile_append, heq, h'.takeWhile_append]
  subst hname
  exact ⟨rfl, by simpa using heq⟩

/-! ## 2. Entries -/

namespace MethodExclusions

/-- Whether an entry stands for a method of a class. -/
def covers (x : MethodExclusions) (className signature : String) : Bool :=
  match x.lookup className with
  | some signatures => signatures.contains signature
  | none => false

/-- Entries with those of some more methods. -/
def addAll (x : MethodExclusions) (keys : List MethodKey) : MethodExclusions :=
  keys.foldl (fun x k => x.add k.className [k.signature]) x

theorem covers_add (x : MethodExclusions) (k : MethodKey) (className signature : String) :
    (x.add k.className [k.signature]).covers className signature =
      (x.covers className signature || (k.className == className && k.signature == signature)) := by
  rw [add, covers, covers, lookup_putValue]
  by_cases hc : className = k.className
  · subst hc
    rw [Bool.eq_iff_iff]
    cases x.lookup k.className <;> simp [Names.distinct, @eq_comm _ signature]
  · have hc' : ¬ k.className = className := fun e => hc e.symm
    simp [hc, hc']

theorem covers_addAll (x : MethodExclusions) (keys : List MethodKey) (className signature : String) :
    (x.addAll keys).covers className signature = (x.covers className signature ||
      keys.any fun k => k.className == className && k.signature == signature) := by
  induction keys generalizing x with
  | nil => simp [addAll]
  | cons k rest ih =>
    have hrest : x.addAll (k :: rest) = (x.add k.className [k.signature]).addAll rest := rfl
    rw [hrest, ih, covers_add, List.any_cons, Bool.or_assoc]

end MethodExclusions

/-- The settings with some more methods left out. -/
def Settings.leavingOut (s : Settings) (keys : List MethodKey) : Settings :=
  { s with excludedMethods := s.excludedMethods.addAll keys }

namespace View

/-- The view with some more methods left out. -/
def leavingOut (v : View) (keys : List MethodKey) : View :=
  { v with excludedMethods := v.excludedMethods.addAll keys }

variable {v : View} {keys : List MethodKey}

/-- A method that is left out by one of the entries. -/
def isCoveredBy (keys : List MethodKey) (m : MethodRecord) : Bool :=
  keys.any fun k => k.className == m.owner && k.signature == m.name ++ m.descriptor

theorem isExcludedMethod_leavingOut (m : MethodRecord) :
    (v.leavingOut keys).isExcludedMethod m = (v.isExcludedMethod m || isCoveredBy keys m) :=
  MethodExclusions.covers_addAll _ _ _ _

theorem includesMethod_leavingOut (m : MethodRecord) :
    (v.leavingOut keys).includesMethod m = (!isCoveredBy keys m && v.includesMethod m) := by
  have henum : (v.leavingOut keys).isEnumConstructor m = v.isEnumConstructor m := rfl
  have hclassification : (v.leavingOut keys).classification = v.classification := rfl
  simp only [includesMethod, isExcludedMethod_leavingOut, henum, hclassification]
  cases isCoveredBy keys m <;> simp

/-- The public methods are the old ones without those that are left out. -/
theorem publicMethods_leavingOut (r : ClassRecord) :
    (v.leavingOut keys).publicMethods r =
      (v.publicMethods r).filter fun m => !isCoveredBy keys m := by
  rw [publicMethods, publicMethods, List.filter_filter]
  exact List.filter_congr fun m _ => includesMethod_leavingOut m

/-- Methods have no say in which classes are public. -/
theorem includedClasses_leavingOut (v : View) (keys : List MethodKey) :
    (v.leavingOut keys).includedClasses = v.includedClasses := by
  have hselect : ∀ records, (v.leavingOut keys).selectFrom records = v.selectFrom records := by
    intro records
    induction records with
    | nil => rfl
    | cons r rest ih =>
      rw [selectFrom, selectFrom, ih]
      rfl
  rw [includedClasses, includedClasses, hselect]
  rfl

/-- A method with an owner and a bracket in its place is left out exactly by its own key. -/
theorem isCoveredBy_eq_contains (hkeys : ∀ k ∈ keys, SpellsMethod k.name k.descriptor)
    {m : MethodRecord} (hm : SpellsMethod m.name m.descriptor) :
    isCoveredBy keys m = keys.contains ⟨m.owner, m.name, m.descriptor⟩ := by
  rw [Bool.eq_iff_iff, isCoveredBy, List.any_eq_true, List.contains_iff_mem]
  constructor
  · rintro ⟨k, hk, hcovers⟩
    obtain ⟨howner, hsignature⟩ := Bool.and_eq_true_iff.mp hcovers
    obtain ⟨hname, hdescriptor⟩ := (hkeys k hk).eq_of_append_eq hm (beq_iff_eq.mp hsignature)
    rw [← beq_iff_eq.mp howner, ← hname, ← hdescriptor]
    exact hk
  · intro hmem
    exact ⟨_, hmem, by simp [MethodKey.signature]⟩

end View

/-! ## 3. Outlines -/

namespace Snapshot

variable {v : View} {keys : List MethodKey}

/-- The outline of a class without some methods. -/
def Outline.leavingOut (o : Outline) (keys : List MethodKey) : Outline :=
  { o with methods := o.methods.filter fun m => !keys.contains ⟨o.name, m.name, m.descriptor⟩ }

/-- An outline that has none of the methods stays as it is. -/
theorem Outline.leavingOut_eq_self {o : Outline}
    (h : ∀ m ∈ o.methods, (⟨o.name, m.name, m.descriptor⟩ : MethodKey) ∉ keys) :
    o.leavingOut keys = o := by
  have hfilter : (o.methods.filter fun m => !keys.contains ⟨o.name, m.name, m.descriptor⟩) =
      o.methods := by
    rw [List.filter_eq_self]
    intro m hm
    simpa using h m hm
  rw [leavingOut, hfilter]

/-- A class loses the lines of the methods that are left out, and no others. -/
theorem outline_leavingOut {r : ClassRecord} {o : Outline} (h : outline v r = .ok o)
    (hkeys : ∀ k ∈ keys, SpellsMethod k.name k.descriptor)
    (hmethods : ∀ m ∈ r.methods, m.owner = r.name ∧ SpellsMethod m.name m.descriptor) :
    outline (v.leavingOut keys) r = .ok (o.leavingOut keys) := by
  obtain ⟨methods, hm, h⟩ := bind_eq_ok.mp h
  obtain ⟨fields, hf, h⟩ := bind_eq_ok.mp h
  cases h
  have hlines : List.Forall₂ (fun m lines => m ∈ r.methods ∧ methodLines v m = .ok lines)
      (v.publicMethods r) methods := by
    refine (List.forall₂_and_left _ _).mpr ⟨?_, mapM_eq_ok.mp hm⟩
    intro m hm
    exact List.mem_mergeSort.mp (List.mem_filter.mp hm).1
  refine bind_eq_ok.mpr ⟨methods.filter fun m => !keys.contains ⟨r.name, m.name, m.descriptor⟩,
    ?_, bind_eq_ok.mpr ⟨fields, hf, rfl⟩⟩
  rw [View.publicMethods_leavingOut, mapM_eq_ok]
  refine (List.rel_filter ?_ hlines).imp fun m lines h => h.2
  intro m lines hml
  obtain ⟨howner, hspells⟩ := hmethods m hml.1
  obtain ⟨line, -, rfl⟩ := map_eq_ok.mp hml.2
  simp only [View.isCoveredBy_eq_contains hkeys hspells, howner]

/-- The text of classes without some methods. -/
theorem outlines_leavingOut {classes : List ClassRecord} {os : List Outline}
    (h : classes.mapM (outline v) = .ok os)
    (hkeys : ∀ k ∈ keys, SpellsMethod k.name k.descriptor)
    (hmethods : ∀ r ∈ classes, ∀ m ∈ r.methods,
      m.owner = r.name ∧ SpellsMethod m.name m.descriptor) :
    classes.mapM (outline (v.leavingOut keys)) = .ok (os.map (·.leavingOut keys)) := by
  have hos := (List.forall₂_and_left _ _).mpr ⟨hmethods, mapM_eq_ok.mp h⟩
  rw [mapM_eq_ok, List.forall₂_map_right_iff]
  exact hos.imp fun r o hr => outline_leavingOut hr.2 hkeys hr.1

/-- Which methods are left out depends on which are named, and not on the order. -/
theorem outline_leavingOut_perm {keys' : List MethodKey} (h : keys.Perm keys') (r : ClassRecord) :
    outline (v.leavingOut keys) r = outline (v.leavingOut keys') r := by
  have hcovered : ∀ m, View.isCoveredBy keys m = View.isCoveredBy keys' m := fun m => h.any_eq
  have hmethods : (v.leavingOut keys).publicMethods r = (v.leavingOut keys').publicMethods r := by
    simp only [View.publicMethods_leavingOut, hcovered]
  rw [outline, outline, hmethods]
  rfl

end Snapshot

/-! ## 4. Scans -/

/-- In every class file the names of methods have no brackets, and the descriptors begin
with one. -/
def ClassTable.SpellsMethods (t : ClassTable) : Prop :=
  ∀ name c, t.file? name = some c → ∀ m ∈ c.methods, SpellsMethod m.name m.descriptor

namespace Scan

section

variable {s : Settings} {t : ClassTable} {target : Path} {known : Universe}
  {metadata : Option Metadata} {classes : List ClassRecord} {text : String}

/-- The methods of the classes that a scan includes belong to these classes. -/
theorem Stages.spells_methods (h : Stages s t target known metadata classes text)
    (ht : t.Coherent) (hspells : t.SpellsMethods) {r : ClassRecord} (hr : r ∈ classes)
    {m : MethodRecord} (hm : m ∈ r.methods) :
    m.owner = r.name ∧ SpellsMethod m.name m.descriptor := by
  have htraces := Universe.enumerate_traces ht h.enumerates
  obtain ⟨name, -, hname⟩ := h.exists_record hr
  rcases htraces.record?_cases ht hname with ⟨isExternal, c, hc, rfl⟩ | ⟨role, _, -, -, -, rfl⟩
  · obtain ⟨info, hinfo, rfl⟩ := List.mem_map.mp hm
    exact ⟨rfl, hspells name c hc info hinfo⟩
  · cases hm

/-- The scan that leaves out more methods goes through the same stages, to another text. -/
theorem Stages.leavingOut (h : Stages s t target known metadata classes text)
    {keys : List MethodKey} {text' : String}
    (hrenders : (Snapshot.render ((view s known metadata).leavingOut keys) classes).outcome =
      .ok text') :
    Stages (s.leavingOut keys) t target known metadata classes text' where
  enumerates := h.enumerates
  resolves := h.resolves
  includes := by
    have hview : view (s.leavingOut keys) known metadata =
        (view s known metadata).leavingOut keys := rfl
    rw [hview, View.includedClasses_leavingOut]
    exact h.includes
  renders := hrenders

/-- Scans that leave out the same methods end alike, however these are ordered. -/
theorem renderTable_leavingOut_perm {keys keys' : List MethodKey} (h : keys.Perm keys') :
    (renderTable (s.leavingOut keys) t target).outcome =
      (renderTable (s.leavingOut keys') t target).outcome := by
  have hrender : ∀ v : View, ∀ classes,
      (Snapshot.render (v.leavingOut keys) classes).outcome =
        (Snapshot.render (v.leavingOut keys') classes).outcome := by
    intro v classes
    rw [Snapshot.outcome_render_outlines, Snapshot.outcome_render_outlines,
      funext (Snapshot.outline_leavingOut_perm (v := v) h)]
  simp only [renderTable, Report.outcome_bind]
  refine bind_congr_ok rfl fun known _ => bind_congr_ok rfl fun _ _ => ?_
  refine bind_congr_ok rfl fun metadata _ => bind_congr_ok ?_ fun classes _ => bind_congr_ok ?_ ?_
  · have hclasses : ∀ keys, (view (s.leavingOut keys) known metadata).includedClasses =
        (view s known metadata).includedClasses :=
      View.includedClasses_leavingOut (view s known metadata)
    exact congrArg Report.outcome ((hclasses keys).trans (hclasses keys').symm)
  · exact congrArg (Except.mapError (renderFault target)) (hrender (view s known metadata) classes)
  · intro text _
    rfl

/-- A text that is rendered is that of outlines, one for each class. A scan that leaves out
more methods gives the text of the same outlines without the lines of these methods, and the
same text where no outline has any of them. In which order methods are named does not matter. -/
theorem render_leaves_out_methods {d : Disk} {home : Place} {classpath : List Path} {h : Handle}
    (hopen : (Handle.resolve d home target classpath).outcome = .ok h)
    (hspells : (h.table d home).SpellsMethods)
    (hrender : (render s d home h).outcome = .ok text) :
    ∃ known metadata classes os,
      Stages s (h.table d home) h.target known metadata classes text ∧
      classes.mapM (Snapshot.outline (view s known metadata)) = .ok os ∧
      text = Snapshot.ofOutlines os ∧
      ((h.table d home).StoredByName → (os.map (·.name)).Pairwise (· < ·)) ∧
      (∀ keys : List MethodKey, (∀ k ∈ keys, SpellsMethod k.name k.descriptor) →
        (render (s.leavingOut keys) d home h).outcome =
          .ok (Snapshot.ofOutlines (os.map (·.leavingOut keys))) ∧
        ((∀ o ∈ os, ∀ m ∈ o.methods, (⟨o.name, m.name, m.descriptor⟩ : MethodKey) ∉ keys) →
          (render (s.leavingOut keys) d home h).outcome = .ok text)) ∧
      ∀ keys keys' : List MethodKey, keys.Perm keys' →
        (render (s.leavingOut keys) d home h).outcome =
          (render (s.leavingOut keys') d home h).outcome := by
  have ht := Handle.coherent_table hopen
  obtain ⟨known, metadata, classes, hstages⟩ := renderTable_eq_ok_iff.mp hrender
  obtain ⟨os, hos, htext⟩ := Snapshot.render_eq_ok_iff.mp hstages.renders
  have hout : ∀ keys : List MethodKey, (∀ k ∈ keys, SpellsMethod k.name k.descriptor) →
      (render (s.leavingOut keys) d home h).outcome =
        .ok (Snapshot.ofOutlines (os.map (·.leavingOut keys))) := by
    intro keys hkeys
    have houtlines := Snapshot.outlines_leavingOut hos hkeys fun r hr m hm =>
      hstages.spells_methods ht hspells hr hm
    exact renderTable_eq_ok_iff.mpr ⟨known, metadata, classes, hstages.leavingOut
      (Snapshot.render_eq_ok_iff.mpr ⟨_, houtlines, rfl⟩)⟩
  refine ⟨known, metadata, classes, os, hstages, hos, htext, ?_, ?_, ?_⟩
  · intro hnames
    have htraces := Universe.enumerate_traces ht hstages.enumerates
    rw [Snapshot.map_name_of_outlines hos, hstages.classes_eq]
    exact View.sortedByName_lt
      ((htraces.nodup_classes ht hnames).sublist (List.filter_sublist.map _))
  · intro keys hkeys
    refine ⟨hout keys hkeys, fun hnone => ?_⟩
    have hsame : os.map (·.leavingOut keys) = os := by
      conv_rhs => rw [← List.map_id os]
      exact List.map_congr_left fun o ho => Snapshot.Outline.leavingOut_eq_self (hnone o ho)
    rw [hout keys hkeys, hsame, htext]
  · intro keys keys' hkeys
    exact renderTable_leavingOut_perm hkeys

end

/-! ## 5. A small class with overloads

A folder with one class. Two methods of it differ in their descriptors only, and a third one
has a descriptor that does not begin with a bracket. -/

namespace OverloadSample

/-- The names in the class file: its own, those of methods, and their descriptors. -/
def poolBytes : List UInt8 := [
  0, 9,
  1, 0, 3, 112, 47, 65,
  7, 0, 1,
  1, 0, 1, 109,
  1, 0, 4, 40, 73, 41, 86,
  1, 0, 4, 40, 74, 41, 86,
  1, 0, 1, 97,
  1, 0, 5, 98, 40, 73, 41, 86,
  1, 0, 9, 83, 105, 103, 110, 97, 116, 117, 114, 101]

/-- The bytes of the class with some methods. -/
def bytes (methods : List (List UInt8)) : List UInt8 :=
  [0xCA, 0xFE, 0xBA, 0xBE, 0, 0, 0, 52] ++ poolBytes
    ++ [0, 0x21, 0, 2, 0, 0, 0, 0, 0, 0, 0, .ofNat methods.length] ++ methods.flatten ++ [0, 0]

def classFile (methods : List MethodInfo) : ClassFile :=
  ⟨52, 0, 0x21, "p.A", none, [], none, [], methods, [], [], none⟩

def disk (methods : List (List UInt8)) : Disk where
  nodes := [
    (["a"], .folder), (["a", "p"], .folder),
    (["a", "p", "A.class"], .file ⟨(bytes methods).toArray⟩)]

def handle : Handle where
  target := Sample.target
  own := .folder [("p.A", ⟨.root, ["a", "p", "A.class"]⟩)]
  dependencies := []
  loaded := []

def known (methods : List MethodInfo) : Universe where
  records := [("p.A", .ofClassFile false (classFile methods))]
  candidates := ["p.A"]
  recorded := by simp

theorem resolve_target (methods : List (List UInt8)) :
    (Handle.resolve (disk methods) [] Sample.target []).outcome = .ok handle := by
  refine Handle.resolve_folder ["a"] rfl rfl ?_ rfl rfl rfl
  have hfiles : (disk methods).filesBelow ["a"] = [["p", "A.class"]] := by cbv
  rw [hfiles]
  rfl

theorem table_handle {content : List (List UInt8)} {methods : List MethodInfo}
    (hparse : ClassFile.parse (bytes content) = .ok (classFile methods)) :
    handle.table (disk content) [] = .ofFiles [("p.A", classFile methods)] :=
  Handle.table_of_folder rfl rfl (List.pairwise_singleton _ _) (.cons ⟨rfl, _, rfl, hparse⟩ .nil)

/-- The stages of the scan of the class, whatever methods are left out. -/
theorem stages {methods : List MethodInfo} (keys : List MethodKey) {text : String}
    (hknown : (Universe.enumerate (.ofFiles [("p.A", classFile methods)])
      (Sample.settings []).exclusion Sample.target).outcome = .ok (known methods))
    (htext : ∀ c, (Snapshot.render ((Sample.sampleView (known methods) c).leavingOut keys)
      [.ofClassFile false (classFile methods)]).outcome = .ok text) :
    Stages ((Sample.settings []).leavingOut keys) (.ofFiles [("p.A", classFile methods)])
      Sample.target (known methods) none [.ofClassFile false (classFile methods)] text := by
  refine stages_of_isPlain _ (fun _ => true) hknown rfl ?_ (List.pairwise_singleton _ _) htext
  intro r hr
  rw [List.mem_singleton.mp hr]
  exact ⟨by cbv, rfl, by cbv, rfl, by cbv, rfl, by cbv⟩

/-- The class with the two overloads. -/
def overloads : List MethodInfo :=
  [⟨1, "m", "(I)V", none, [], none⟩, ⟨1, "m", "(J)V", none, [], none⟩]

def overloadBytes : List (List UInt8) := [[0, 1, 0, 3, 0, 4, 0, 0], [0, 1, 0, 3, 0, 5, 0, 0]]

theorem parse_overloads : ClassFile.parse (bytes overloadBytes) = .ok (classFile overloads) := by
  cbv

theorem stages_overloads : Stages (Sample.settings []) (.ofFiles [("p.A", classFile overloads)])
    Sample.target (known overloads) none [.ofClassFile false (classFile overloads)]
    "public class p.A\n  public void m(int)\n  public void m(long)\n##\n" :=
  stages [] (by cbv) fun c => by cbv

/-- The class with the third method. -/
def unbracketed : List MethodInfo := [⟨1, "a", "b(I)V", some "(I)V", [], none⟩]

def unbracketedBytes : List (List UInt8) := [[0, 1, 0, 6, 0, 7, 0, 1, 0, 8, 0, 0, 0, 2, 0, 4]]

theorem parse_unbracketed :
    ClassFile.parse (bytes unbracketedBytes) = .ok (classFile unbracketed) := by
  cbv

theorem render_unbracketed (keys : List MethodKey) {text : String}
    (htext : ∀ c, (Snapshot.render ((Sample.sampleView (known unbracketed) c).leavingOut keys)
      [.ofClassFile false (classFile unbracketed)]).outcome = .ok text) :
    (render ((Sample.settings []).leavingOut keys) (disk unbracketedBytes) [] handle).outcome =
      .ok text := by
  rw [render, table_handle parse_unbracketed]
  exact renderTable_eq_ok_iff.mpr ⟨_, _, _, stages keys (by cbv) htext⟩

end OverloadSample

/-- Of two overloads the one that is left out is gone, and the other one stays. -/
theorem render_leaves_out_one_overload :
    (Handle.resolve (OverloadSample.disk OverloadSample.overloadBytes) [] Sample.target []).outcome =
      .ok OverloadSample.handle ∧
    (OverloadSample.handle.table (OverloadSample.disk OverloadSample.overloadBytes) []).SpellsMethods ∧
    (render (Sample.settings []) (OverloadSample.disk OverloadSample.overloadBytes) []
      OverloadSample.handle).outcome =
        .ok "public class p.A\n  public void m(int)\n  public void m(long)\n##\n" ∧
    (render ((Sample.settings []).leavingOut [⟨"p.A", "m", "(I)V"⟩])
      (OverloadSample.disk OverloadSample.overloadBytes) [] OverloadSample.handle).outcome =
        .ok "public class p.A\n  public void m(long)\n##\n" := by
  have htable := OverloadSample.table_handle OverloadSample.parse_overloads
  have hspells : (OverloadSample.handle.table (OverloadSample.disk OverloadSample.overloadBytes)
      []).SpellsMethods := by
    intro name c hc m hm
    rw [htable] at hc
    cases List.mem_singleton.mp (ClassTable.mem_of_file?_ofFiles hc)
    have hm : m = ⟨1, "m", "(I)V", none, [], none⟩ ∨ m = ⟨1, "m", "(J)V", none, [], none⟩ := by
      simpa [OverloadSample.classFile, OverloadSample.overloads] using hm
    rcases hm with rfl | rfl
    · exact ⟨by decide, by decide⟩
    · exact ⟨by decide, by decide⟩
  have hrender : (render (Sample.settings []) (OverloadSample.disk OverloadSample.overloadBytes) []
      OverloadSample.handle).outcome =
        .ok "public class p.A\n  public void m(int)\n  public void m(long)\n##\n" := by
    rw [render, htable]
    exact renderTable_eq_ok_iff.mpr ⟨_, _, _, OverloadSample.stages_overloads⟩
  obtain ⟨known, metadata, classes, os, hstages, hos, -, -, hout, -⟩ := render_leaves_out_methods
    (OverloadSample.resolve_target OverloadSample.overloadBytes) hspells hrender
  refine ⟨OverloadSample.resolve_target _, hspells, hrender, ?_⟩
  rw [htable] at hstages
  obtain ⟨rfl, rfl, rfl, -⟩ := OverloadSample.stages_overloads.unique hstages
  have houtlines : ∀ c, [ClassRecord.ofClassFile false
      (OverloadSample.classFile OverloadSample.overloads)].mapM
        (Snapshot.outline (Sample.sampleView (OverloadSample.known OverloadSample.overloads) c)) =
      .ok [⟨"p.A", ["public class p.A"], [⟨"m", "(I)V", ["  public void m(int)"]⟩,
        ⟨"m", "(J)V", ["  public void m(long)"]⟩], ["##"]⟩] := fun c => by cbv
  rw [Except.ok.inj (hos.symm.trans (houtlines _))] at hout
  exact (hout [⟨"p.A", "m", "(I)V"⟩] (by simpa using ⟨by decide, by decide⟩)).1

/-- A method whose descriptor does not begin with a bracket goes with an entry for a method
of another name. -/
theorem render_leaves_out_another_name :
    (Handle.resolve (OverloadSample.disk OverloadSample.unbracketedBytes) []
      Sample.target []).outcome = .ok OverloadSample.handle ∧
    (OverloadSample.handle.table (OverloadSample.disk OverloadSample.unbracketedBytes)
      []).StoredByName ∧
    (∀ name c, (OverloadSample.handle.table (OverloadSample.disk OverloadSample.unbracketedBytes)
      []).file? name = some c → ∀ m ∈ c.methods, '(' ∉ m.name.toList ∧ m.name ≠ "ab") ∧
    SpellsMethod "ab" "(I)V" ∧
    (render (Sample.settings []) (OverloadSample.disk OverloadSample.unbracketedBytes) []
      OverloadSample.handle).outcome = .ok "public class p.A\n  public void a(int)\n##\n" ∧
    (render ((Sample.settings []).leavingOut [⟨"p.A", "ab", "(I)V"⟩])
      (OverloadSample.disk OverloadSample.unbracketedBytes) [] OverloadSample.handle).outcome =
        .ok "public class p.A\n##\n" := by
  have htable := OverloadSample.table_handle OverloadSample.parse_unbracketed
  refine ⟨OverloadSample.resolve_target _, ?_, ?_, ⟨by decide, by decide⟩,
    OverloadSample.render_unbracketed [] fun c => by cbv,
    OverloadSample.render_unbracketed [⟨"p.A", "ab", "(I)V"⟩] fun c => by cbv⟩
  · rw [htable]
    exact ClassTable.storedByName_ofFiles (by decide)
  · intro name c hc m hm
    rw [htable] at hc
    cases List.mem_singleton.mp (ClassTable.mem_of_file?_ofFiles hc)
    rw [List.mem_singleton.mp hm]
    exact ⟨by decide, by decide⟩

end Scan

end ApiSurface
