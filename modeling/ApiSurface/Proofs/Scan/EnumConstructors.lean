/-
ApiSurface.Proofs.Scan.EnumConstructors — constructors of enum types are never public.

A class below the superclass of all enum types loses its constructors, whatever their
flags, through however many classes it extends it, and wherever these classes come from
(`Scan.enum_constructors_hidden`).

Two corners stand apart. The superclass of all enum types is not below itself, so a class
file of that name that leads back to itself keeps its constructors. And a class file that
names the empty name as its superclass extends nothing, also where a class has that name.
-/
import ApiSurface.Proofs.Scan.FolderTargets
import ApiSurface.Proofs.Scan.PublicInterface
import ApiSurface.Proofs.Universe.Superclasses

namespace ApiSurface

/-! ## 1. Hidden constructors -/

theorem View.owner_of_mem_publicMethods {v : View} {isExternal : Bool} {c : ClassFile}
    {m : MethodRecord} (hm : m ∈ v.publicMethods (.ofClassFile isExternal c)) :
    m.owner = c.name ∧ v.isEnumConstructor m = false := by
  rw [publicMethods, List.mem_filter, List.mem_mergeSort] at hm
  obtain ⟨hm, hincluded⟩ := hm
  obtain ⟨info, -, rfl⟩ := List.mem_map.mp hm
  simp only [includesMethod, Bool.and_eq_true, Bool.not_eq_true'] at hincluded
  exact ⟨rfl, hincluded.1.2⟩

namespace Scan

section

variable {s : Settings} {t : ClassTable} {target : Path} {known : Universe}
  {metadata : Option Metadata} {classes : List ClassRecord} {text : String}

/-- The classes whose blocks make the text are known under their own names. -/
theorem Stages.record?_of_mem (h : Stages s t target known metadata classes text)
    (ht : t.Coherent) (hnames : t.StoredByName) {r : ClassRecord} (hr : r ∈ classes) :
    known.record? r.name = some r := by
  obtain ⟨name, -, hname⟩ := h.exists_record hr
  have hown : r.name = name :=
    (Universe.enumerate_traces ht h.enumerates).name_of_record? ht hnames hname
  rw [hown]
  exact hname

/-- No constructor of a class below the superclass of enum types is public. -/
theorem Stages.isConstructor_eq_false (h : Stages s t target known metadata classes text)
    (ht : t.Coherent) (hnames : t.StoredByName) {name : String} {r : ClassRecord}
    (hr : known.record? name = some r) (hne : name ≠ View.enumBase)
    (hup : t.Extends name View.enumBase) {m : MethodRecord}
    (hm : m ∈ (view s known metadata).publicMethods r) : m.isConstructor = false := by
  have htraces := Universe.enumerate_traces ht h.enumerates
  have hextends := htraces.extends?_of_extends ht hnames hr hne hup
  rcases htraces.record?_cases ht hr with ⟨isExternal, c, hc, rfl⟩ | ⟨role, _, -, -, -, rfl⟩
  · obtain ⟨howner, hrule⟩ := View.owner_of_mem_publicMethods hm
    have hknown : (view s known metadata).known.record? m.owner =
        some (.ofClassFile isExternal c) := by
      rw [howner, hnames name c hc]
      exact hr
    rw [View.isEnumConstructor, hknown] at hrule
    simpa [view, hextends] using hrule
  · simp [View.publicMethods, ClassRecord.placeholder] at hm

/-- A scan that renders a text goes through stages, and its text is that of the classes that
it includes. No class below the superclass of enum types, the superclass itself apart, has a
constructor among its public methods. -/
theorem enum_constructors_hidden {d : Disk} {home : Place} {classpath : List Path} {h : Handle}
    (hopen : (Handle.resolve d home target classpath).outcome = .ok h)
    (hnames : (h.table d home).StoredByName)
    (hrender : (render s d home h).outcome = .ok text) :
    ∃ known metadata classes,
      Stages s (h.table d home) h.target known metadata classes text ∧
      (∀ r ∈ classes, known.record? r.name = some r) ∧
      ∀ name r, known.record? name = some r → name ≠ View.enumBase →
        (h.table d home).Extends name View.enumBase →
        ∀ m ∈ (view s known metadata).publicMethods r, m.isConstructor = false := by
  have ht := Handle.coherent_table hopen
  obtain ⟨known, metadata, classes, hstages⟩ := renderTable_eq_ok_iff.mp hrender
  refine ⟨known, metadata, classes, hstages, ?_, ?_⟩
  · intro r hr
    exact hstages.record?_of_mem ht hnames hr
  · intro name r hr hne hup m hm
    exact hstages.isConstructor_eq_false ht hnames hr hne hup hm

end

/-! ## 2. Small targets

Folders with one or two classes, of which each has a superclass and some a public
constructor. -/

namespace EnumSample

/-- The bytes of a class, by its name and that of its superclass. -/
def bytes (flags : UInt8) (name superclass : List UInt8) (hasConstructor : Bool) : List UInt8 :=
  [0xCA, 0xFE, 0xBA, 0xBE, 0, 0, 0, 52, 0, 7]
    ++ [1, 0, .ofNat name.length] ++ name ++ [7, 0, 1]
    ++ [1, 0, .ofNat superclass.length] ++ superclass ++ [7, 0, 3]
    ++ [1, 0, 6, 60, 105, 110, 105, 116, 62] ++ [1, 0, 3, 40, 41, 86]
    ++ [0, flags, 0, 2, 0, 4, 0, 0, 0, 0]
    ++ (if hasConstructor then [0, 1, 0, 1, 0, 5, 0, 6, 0, 0] else [0, 0]) ++ [0, 0]

def classFile (flags : Nat) (name superclass : String) (hasConstructor : Bool) : ClassFile :=
  ⟨52, 0, flags, name, some superclass, [], none, [],
    if hasConstructor then [⟨1, "<init>", "()V", none, [], none⟩] else [], [], [], none⟩

/-- The name of the superclass of enum types, as class files spell it. -/
def enumBaseBytes : List UInt8 := [106, 97, 118, 97, 47, 108, 97, 110, 103, 47, 69, 110, 117, 109]

/-! ### An enum type behind a class that is left out -/

/-- The class `p.E` extends `p.M`, which extends the superclass of enum types. -/
def disk : Disk where
  nodes := [
    (["a"], .folder), (["a", "p"], .folder),
    (["a", "p", "E.class"], .file ⟨(bytes 0x21 [112, 47, 69] [112, 47, 77] true).toArray⟩),
    (["a", "p", "M.class"], .file ⟨(bytes 0x21 [112, 47, 77] enumBaseBytes false).toArray⟩)]

def files : List (String × ClassFile) := [
  ("p.E", classFile 0x21 "p.E" "p.M" true), ("p.M", classFile 0x21 "p.M" "java.lang.Enum" false)]

def handle : Handle where
  target := Sample.target
  own := .folder [("p.E", ⟨.root, ["a", "p", "E.class"]⟩), ("p.M", ⟨.root, ["a", "p", "M.class"]⟩)]
  dependencies := []
  loaded := []

theorem resolve_target : (Handle.resolve disk [] Sample.target []).outcome = .ok handle := by
  refine Handle.resolve_folder ["a"] rfl rfl ?_ rfl rfl rfl
  have hfiles : disk.filesBelow ["a"] = [["p", "E.class"], ["p", "M.class"]] := by cbv
  rw [hfiles]
  rfl

theorem table_handle : handle.table disk [] = .ofFiles files := by
  refine Handle.table_of_folder rfl rfl (by decide) ?_
  exact .cons ⟨rfl, _, rfl, by cbv⟩ (.cons ⟨rfl, _, rfl, by cbv⟩ .nil)

theorem storedByName : (handle.table disk []).StoredByName := by
  rw [table_handle]
  exact ClassTable.storedByName_ofFiles (by decide)

/-- What a scan knows that leaves `p.M` out. -/
def known : Universe where
  records := [
    ("p.E", .ofClassFile false (classFile 0x21 "p.E" "p.M" true)),
    ("p.M", .ofClassFile false (classFile 0x21 "p.M" "java.lang.Enum" false)),
    ("java.lang.Enum", .placeholder "java.lang.Enum" .ordinary)]
  candidates := ["p.E", "java.lang.Enum"]
  recorded := by simp [List.lookup_cons]

/-- A class of the samples is public for any meaning of annotations. -/
theorem isPlain_classFile (name superclass : String) (hasConstructor : Bool)
    (hpackage : Markers.standard.isInternalPackage name = false) :
    (ClassRecord.ofClassFile false (classFile 0x21 name superclass hasConstructor)).IsPlain
      .standard where
  package := hpackage
  isOwn := rfl
  isNoAnnotationType := by cbv
  annotations := rfl
  visible := by cbv
  enclosing := rfl
  isNotSynthetic := by cbv

theorem enumerate_table : (Universe.enumerate (handle.table disk [])
    (Sample.settings ["p.M"]).exclusion Sample.target).outcome = .ok known := by
  rw [table_handle]
  cbv

theorem render_target : (render (Sample.settings ["p.M"]) disk [] handle).outcome =
    .ok "public class p.E extends p.M\n##\n" := by
  refine renderTable_of_isPlain known (fun r => r.name == "p.E") enumerate_table ?_ ?_ ?_ ?_
  · rw [table_handle]
    rfl
  · intro r hr
    have hclasses : known.classes = [.ofClassFile false (classFile 0x21 "p.E" "p.M" true),
        .placeholder "java.lang.Enum" .ordinary] := rfl
    rw [hclasses, List.mem_pair] at hr
    rcases hr with rfl | rfl
    · exact isPlain_classFile "p.E" "p.M" true (by decide)
    · exact .inl rfl
  · exact List.pairwise_singleton _ _
  · intro c
    cbv

/-- The enum type is two references below the superclass of all enum types. -/
theorem extends_table : (handle.table disk []).Extends "p.E" View.enumBase := by
  rw [table_handle]
  have hrefers : (ClassTable.ofFiles files).Refers "p.E" "p.M" .ordinary :=
    ⟨_, by rw [ClassTable.file?_ofFiles]; rfl, .superclass rfl (by decide)⟩
  have hrefers' : (ClassTable.ofFiles files).Refers "p.M" View.enumBase .ordinary :=
    ⟨_, by rw [ClassTable.file?_ofFiles]; rfl, .superclass rfl (by decide)⟩
  exact .head hrefers (.single hrefers')

end EnumSample

/-- A class that is left out stands between an enum type and the superclass of enum types,
which nothing defines. The constructor of the enum type is public by its flags, and hidden. -/
theorem enum_constructors_hidden_behind_excluded :
    (Handle.resolve EnumSample.disk [] Sample.target []).outcome = .ok EnumSample.handle ∧
    (EnumSample.handle.table EnumSample.disk []).StoredByName ∧
    (render (Sample.settings ["p.M"]) EnumSample.disk [] EnumSample.handle).outcome =
      .ok "public class p.E extends p.M\n##\n" ∧
    ∃ known metadata classes r,
      Stages (Sample.settings ["p.M"]) (EnumSample.handle.table EnumSample.disk []) Sample.target
        known metadata classes "public class p.E extends p.M\n##\n" ∧
      known.record? "p.E" = some r ∧ r.methods.map (·.isConstructor) = [true] ∧
      ∀ m ∈ (view (Sample.settings ["p.M"]) known metadata).publicMethods r,
        m.isConstructor = false := by
  refine ⟨EnumSample.resolve_target, EnumSample.storedByName, EnumSample.render_target, ?_⟩
  obtain ⟨known, metadata, classes, hstages, -, hhidden⟩ := enum_constructors_hidden
    EnumSample.resolve_target EnumSample.storedByName EnumSample.render_target
  have hknown : known = EnumSample.known :=
    Except.ok.inj (hstages.enumerates.symm.trans EnumSample.enumerate_table)
  subst hknown
  exact ⟨_, metadata, classes, _, hstages, rfl, rfl,
    hhidden _ _ rfl (by decide) EnumSample.extends_table⟩

namespace EnumSample

/-! ### The corners -/

/-- The superclass of enum types extends itself. -/
def circleDisk : Disk where
  nodes := [
    (["a"], .folder), (["a", "java"], .folder), (["a", "java", "lang"], .folder),
    (["a", "java", "lang", "Enum.class"],
      .file ⟨(bytes 0x21 enumBaseBytes enumBaseBytes true).toArray⟩)]

def circleFiles : List (String × ClassFile) :=
  [("java.lang.Enum", classFile 0x21 "java.lang.Enum" "java.lang.Enum" true)]

def circleHandle : Handle where
  target := Sample.target
  own := .folder [("java.lang.Enum", ⟨.root, ["a", "java", "lang", "Enum.class"]⟩)]
  dependencies := []
  loaded := []

theorem resolve_circle : (Handle.resolve circleDisk [] Sample.target []).outcome =
    .ok circleHandle := by
  refine Handle.resolve_folder ["a"] rfl rfl ?_ rfl rfl rfl
  have hfiles : circleDisk.filesBelow ["a"] = [["java", "lang", "Enum.class"]] := by cbv
  rw [hfiles]
  rfl

theorem table_circle : circleHandle.table circleDisk [] = .ofFiles circleFiles :=
  Handle.table_of_folder rfl rfl (by decide) (.cons ⟨rfl, _, rfl, by cbv⟩ .nil)

def circleKnown : Universe where
  records := [("java.lang.Enum",
    .ofClassFile false (classFile 0x21 "java.lang.Enum" "java.lang.Enum" true))]
  candidates := ["java.lang.Enum"]
  recorded := by simp

theorem render_circle : (render (Sample.settings []) circleDisk [] circleHandle).outcome =
    .ok "public class java.lang.Enum extends java.lang.Enum\n  public <init>()\n##\n" := by
  rw [render, table_circle]
  refine renderTable_of_isPlain circleKnown (fun _ => true) (by cbv) rfl ?_
    (List.pairwise_singleton _ _) ?_
  · intro r hr
    rw [List.mem_singleton.mp hr]
    exact isPlain_classFile "java.lang.Enum" "java.lang.Enum" true (by decide)
  · intro c
    cbv

/-- A class without a name extends the superclass of enum types, and `p.B` names it as its
own superclass. -/
def namelessDisk : Disk where
  nodes := [
    (["a"], .folder), (["a", ".class"], .file ⟨(bytes 0x20 [] enumBaseBytes false).toArray⟩),
    (["a", "p"], .folder),
    (["a", "p", "B.class"], .file ⟨(bytes 0x21 [112, 47, 66] [] true).toArray⟩)]

def namelessFiles : List (String × ClassFile) :=
  [("", classFile 0x20 "" "java.lang.Enum" false), ("p.B", classFile 0x21 "p.B" "" true)]

def namelessHandle : Handle where
  target := Sample.target
  own := .folder [("", ⟨.root, ["a", ".class"]⟩), ("p.B", ⟨.root, ["a", "p", "B.class"]⟩)]
  dependencies := []
  loaded := []

theorem resolve_nameless : (Handle.resolve namelessDisk [] Sample.target []).outcome =
    .ok namelessHandle := by
  refine Handle.resolve_folder ["a"] rfl rfl ?_ rfl rfl rfl
  have hfiles : namelessDisk.filesBelow ["a"] = [[".class"], ["p", "B.class"]] := by cbv
  rw [hfiles]
  rfl

theorem table_nameless : namelessHandle.table namelessDisk [] = .ofFiles namelessFiles :=
  Handle.table_of_folder rfl rfl (by decide)
    (.cons ⟨rfl, _, rfl, by cbv⟩ (.cons ⟨rfl, _, rfl, by cbv⟩ .nil))

def namelessKnown : Universe where
  records := [
    ("", .ofClassFile false (classFile 0x20 "" "java.lang.Enum" false)),
    ("p.B", .ofClassFile false (classFile 0x21 "p.B" "" true)),
    ("java.lang.Enum", .placeholder "java.lang.Enum" .ordinary)]
  candidates := ["", "p.B", "java.lang.Enum"]
  recorded := by simp [List.lookup_cons]

theorem render_nameless : (render (Sample.settings []) namelessDisk [] namelessHandle).outcome =
    .ok "public class p.B\n  public <init>()\n##\n" := by
  rw [render, table_nameless]
  refine renderTable_of_isPlain namelessKnown (fun r => r.name == "p.B") (by cbv) rfl ?_
    (List.pairwise_singleton _ _) ?_
  · intro r hr
    have hr : r = .ofClassFile false (classFile 0x20 "" "java.lang.Enum" false) ∨
        r = .ofClassFile false (classFile 0x21 "p.B" "" true) ∨
        r = .placeholder "java.lang.Enum" .ordinary := by
      simpa [namelessKnown, Universe.mem_classes, Universe.record?, List.lookup, eq_comm] using hr
    rcases hr with rfl | rfl | rfl
    · exact .inr (by cbv)
    · exact isPlain_classFile "p.B" "" true (by decide)
    · exact .inl rfl
  · intro c
    cbv

end EnumSample

/-- The constructor of the superclass of enum types is shown although that class is above
itself, and so is the constructor of a class that has the superclass of enum types above it
by the empty name only. -/
theorem enum_constructors_shown_in_corners :
    ((Handle.resolve EnumSample.circleDisk [] Sample.target []).outcome =
        .ok EnumSample.circleHandle ∧
      (EnumSample.circleHandle.table EnumSample.circleDisk []).StoredByName ∧
      (EnumSample.circleHandle.table EnumSample.circleDisk []).Extends
        View.enumBase View.enumBase ∧
      (render (Sample.settings []) EnumSample.circleDisk [] EnumSample.circleHandle).outcome =
        .ok "public class java.lang.Enum extends java.lang.Enum\n  public <init>()\n##\n") ∧
    (Handle.resolve EnumSample.namelessDisk [] Sample.target []).outcome =
        .ok EnumSample.namelessHandle ∧
      (EnumSample.namelessHandle.table EnumSample.namelessDisk []).StoredByName ∧
      (((EnumSample.namelessHandle.table EnumSample.namelessDisk []).file? "p.B").map
        (·.superclass) = some (some "") ∧
      ((EnumSample.namelessHandle.table EnumSample.namelessDisk []).file? "").map
        (·.superclass) = some (some View.enumBase)) ∧
      (render (Sample.settings []) EnumSample.namelessDisk [] EnumSample.namelessHandle).outcome =
        .ok "public class p.B\n  public <init>()\n##\n" := by
  refine ⟨⟨EnumSample.resolve_circle, ?_, ?_, EnumSample.render_circle⟩,
    EnumSample.resolve_nameless, ?_, ?_, EnumSample.render_nameless⟩
  · rw [EnumSample.table_circle]
    exact ClassTable.storedByName_ofFiles (by decide)
  · rw [EnumSample.table_circle]
    exact .single ⟨_, by rw [ClassTable.file?_ofFiles]; rfl, .superclass rfl (by decide)⟩
  · rw [EnumSample.table_nameless]
    exact ClassTable.storedByName_ofFiles (by decide)
  · rw [EnumSample.table_nameless, ClassTable.file?_ofFiles, ClassTable.file?_ofFiles]
    exact ⟨rfl, rfl⟩

end Scan

end ApiSurface
