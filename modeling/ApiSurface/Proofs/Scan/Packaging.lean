/-
ApiSurface.Proofs.Scan.Packaging — how artifacts are packaged does not show.

A target and each entry of its class path is an archive or a folder. A handle asks its
sources for names and for bytes and for nothing else. So handles on the same bundles find
the same class under every name (`Handle.Gives.lookUp_eq`), and their scans have the same
texts. They need not fail for the same cause: some causes name the target.
-/
import ApiSurface.Proofs.Archive.Stored
import ApiSurface.Proofs.ClassPath.Packaging
import ApiSurface.Proofs.Scan.Alike
import Mathlib.Tactic.IntervalCases

namespace ApiSurface

/-! ## 1. Handles on bundles -/

/-- The bytes of a class in a target or else in a class path, and where they were found. -/
def Bundle.find? (b : Bundle) (classpath : List Bundle) (name : String) :
    Option (List UInt8 × Scope) :=
  match b.bytes? name with
  | some bytes => some (bytes, .target)
  | none => (classpath.findSome? (·.bytes? name)).map (·, .dependency)

namespace Handle

/-- A handle gives the classes of a target and of a class path. -/
structure Gives (h : Handle) (d : Disk) (home : Place) (b : Bundle) (classpath : List Bundle) :
    Prop where
  own : h.own.Gives d home b
  dependencies : List.Forall₂ (fun b s => s.Gives d home b) classpath h.dependencies

variable {d d₁ d₂ : Disk} {home home₁ home₂ : Place} {b : Bundle} {classpath : List Bundle}

/-- The first source that gives a class is that of the first bundle that holds it. -/
theorem findIn_of_gives {name : String} {sources : List Source}
    (h : List.Forall₂ (fun b s => s.Gives d home b) classpath sources) :
    findIn d home name sources = .ok (classpath.findSome? (·.bytes? name)) := by
  induction h with
  | nil => rfl
  | @cons b s _ _ hs _ ih =>
    rw [findIn, hs.read, List.findSome?_cons]
    cases b.bytes? name with
    | none => exact ih
    | some bytes => rfl

theorem Gives.find_eq {h : Handle} (hg : h.Gives d home b classpath) (name : String) :
    h.find d home name = .ok (b.find? classpath name) := by
  rw [find, hg.own.read, Bundle.find?]
  cases b.bytes? name with
  | none =>
    simp only [bind, Except.bind, findIn_of_gives hg.dependencies]
    rfl
  | some bytes => rfl

theorem Gives.mem_names {h : Handle} (hg : h.Gives d home b classpath) {name : String} :
    name ∈ h.names ↔ name ∈ b.names ∨ ∃ b' ∈ classpath, name ∈ b'.names := by
  have hdependencies : (∃ s ∈ h.dependencies, name ∈ s.names) ↔
      ∃ b' ∈ classpath, name ∈ b'.names := by
    constructor
    · rintro ⟨s, hs, hn⟩
      obtain ⟨b', hb', hgives⟩ := exists_of_mem_right hg.dependencies hs
      exact ⟨b', hb', (hgives.mem_names name).mp hn⟩
    · rintro ⟨b', hb', hn⟩
      obtain ⟨s, hs, hgives⟩ := exists_of_mem_left hg.dependencies hb'
      exact ⟨s, hs, (hgives.mem_names name).mpr hn⟩
  rw [names, Names.mem_distinct, List.mem_append, List.mem_flatMap, hg.own.mem_names, hdependencies]

variable {h₁ h₂ : Handle} (hg₁ : h₁.Gives d₁ home₁ b classpath)
  (hg₂ : h₂.Gives d₂ home₂ b classpath)
include hg₁ hg₂

/-- Handles on the same bundles find the same classes. -/
theorem Gives.lookUp_eq : h₁.lookUp d₁ home₁ = h₂.lookUp d₂ home₂ := by
  funext name
  rw [lookUp, lookUp, hg₁.find_eq, hg₂.find_eq]
  cases b.find? classpath name with
  | none => rfl
  | some found => rfl

theorem Gives.targetNames_eq : h₁.targetNames = h₂.targetNames :=
  Names.sorted_distinct_congr fun name =>
    (hg₁.own.mem_names name).trans (hg₂.own.mem_names name).symm

/-- Handles on the same bundles show the same to a scan. -/
theorem Gives.alike_table : (h₁.table d₁ home₁).Alike (fun _ _ => True) (h₂.table d₂ home₂) := by
  have hsame : (h₁.table d₁ home₁).SameUpTo (fun _ _ => True) Eq (h₂.table d₂ home₂) :=
    { own := hg₁.targetNames_eq hg₂
      defined := fun _ => hg₁.mem_names.trans hg₂.mem_names.symm
      lookUp := fun name => by
        rw [table, table, hg₁.lookUp_eq hg₂]
        refine .refl (fun _ => trivial) (fun found => ?_) _
        cases found with
        | none => exact .none
        | some loaded => exact .some ⟨rfl, rfl⟩ }
  exact hsame.alike_of_eq

end Handle

/-! ## 2. Opening -/

namespace Handle

variable {d : Disk} {home : Place} {b : Bundle} {classpath : List Bundle}

theorem openEntry_of_packedAt {p : Path} (h : b.PackedAt d home p) (ht : d.IsTree) :
    ∃ s, openEntry d home p = .ok s ∧ s.Gives d home b := by
  obtain ⟨s, hs, hgives⟩ := h.exists_gives ht
  exact ⟨s, by rw [openEntry, hs]; rfl, hgives⟩

/-- What is packaged can be opened together, and gives what was packaged. -/
theorem exists_resolve {target : Path} {paths : List Path} (ht : d.IsTree)
    (htarget : b.PackedAt d home target)
    (hpaths : List.Forall₂ (fun b p => b.PackedAt d home p) classpath paths) :
    ∃ h, (resolve d home target paths).outcome = .ok h ∧ h.Gives d home b classpath := by
  obtain ⟨own, hown, hgives⟩ := openEntry_of_packedAt htarget ht
  have hsources : ∃ sources, List.Forall₂ (fun p s => openEntry d home p = .ok s) paths sources ∧
      List.Forall₂ (fun b s => s.Gives d home b) classpath sources := by
    induction hpaths with
    | nil => exact ⟨[], .nil, .nil⟩
    | cons hp _ ih =>
      obtain ⟨s, hs, hgives⟩ := openEntry_of_packedAt hp ht
      obtain ⟨sources, hsources, hall⟩ := ih
      exact ⟨s :: sources, .cons hs hsources, .cons hgives hall⟩
  obtain ⟨sources, hsources, hall⟩ := hsources
  refine ⟨⟨target, own, sources, []⟩, ?_, hgives, hall⟩
  refine Report.outcome_bind_eq_ok.mpr ⟨sources, mapM_eq_ok.mpr hsources, ?_⟩
  exact Report.outcome_bind_eq_ok.mpr ⟨own, hown, rfl⟩

end Handle

/-! ## 3. A small class in a folder and in an archive -/

namespace Scan

namespace MemberSample

/-- The fields that the header of a stored entry and its line in the directory share: no
flags, no compression, no time, and then a checksum, both sizes and the length of the name. -/
def entryFields (crc size name : List UInt8) : List UInt8 :=
  [0, 0, 0, 0, 0, 0, 0, 0] ++ crc ++ size ++ size ++ [.ofNat name.length, 0, 0, 0]

def entryHeader (crc size name : List UInt8) : List UInt8 :=
  [0x50, 0x4B, 3, 4, 10, 0] ++ entryFields crc size name

def directoryLine (crc size name offset : List UInt8) : List UInt8 :=
  [0x50, 0x4B, 1, 2, 10, 0, 10, 0] ++ entryFields crc size name
    ++ [0, 0, 0, 0, 0, 0, 0, 0, 0, 0] ++ offset ++ name

/-- The names `p/` and `p/A.class`. -/
def folderName : List UInt8 := [112, 47]
def className : List UInt8 := [112, 47, 65, 46, 99, 108, 97, 115, 115]

/-- The checksum and the size of the class file. -/
def classCrc : List UInt8 := [0x8D, 0x04, 0x9E, 0x17]
def classSize : List UInt8 := [59, 0, 0, 0]

/-- The bytes of an archive with an entry for the folder `p` and the class file behind it. -/
def archiveBytes : List UInt8 :=
  entryHeader [0, 0, 0, 0] [0, 0, 0, 0] folderName ++ folderName
    ++ entryHeader classCrc classSize className ++ className ++ bytesPublicOnly
    ++ directoryLine [0, 0, 0, 0] [0, 0, 0, 0] folderName [0, 0, 0, 0]
    ++ directoryLine classCrc classSize className [32, 0, 0, 0]
    ++ [0x50, 0x4B, 5, 6, 0, 0, 0, 0, 2, 0, 2, 0, 103, 0, 0, 0, 130, 0, 0, 0, 0, 0]

def classEntry : Archive.Entry := ⟨⟨"p/A.class", "p/A.class", 0, 0, 0x179E048D, 59, 59, 32⟩, 130⟩

def archive : Archive :=
  ⟨⟨archiveBytes.toArray⟩, [⟨⟨"p/", "p/", 0, 0, 0, 0, 0, 0⟩, 32⟩, classEntry]⟩

/-- The class in a folder, with notes beside it, and in an archive. -/
def bothWays : Disk where
  nodes := [(["a"], .folder), (["a", "p"], .folder),
    (["a", "p", "A.class"], .file ⟨bytesPublicOnly.toArray⟩), (["a", "notes"], .file .empty),
    (["a.jar"], .file ⟨archiveBytes.toArray⟩)]

def archivePath : Path := ⟨.root, ["a.jar"]⟩

def bundle : Bundle where
  files := [(["p", "A.class"], bytesPublicOnly)]
  isClass := by decide
  distinct := by decide

/-- The settings of a scan of the class against one entry of a class path. -/
def settingsWith (entry : Path) : Settings := { Sample.settings [] with classpath := [entry] }

theorem length_archiveBytes : archiveBytes.length = 255 := by decide +kernel

theorem endPlace?_archiveBytes : Archive.endPlace? ⟨archiveBytes.toArray⟩ = some 233 := by
  have hplace : 255 - Archive.endSize = 233 := rfl
  have hlast : (archiveBytes.drop 233).take Archive.endSize =
      [0x50, 0x4B, 5, 6, 0, 0, 0, 0, 2, 0, 2, 0, 103, 0, 0, 0, 130, 0, 0, 0, 0, 0] := by cbv
  simp only [Archive.endPlace?, Archive.slice_mk, Archive.size_mk, length_archiveBytes, hplace,
    hlast]
  rfl

theorem endRecord_archiveBytes :
    Archive.endRecord ⟨archiveBytes.toArray⟩ = .ok ⟨103, 130, 233⟩ := by
  simp only [Archive.endRecord, endPlace?_archiveBytes, Archive.slice_mk]
  cbv

theorem ofBytes_archiveBytes : Archive.ofBytes ⟨archiveBytes.toArray⟩ = .ok archive := by
  simp only [Archive.ofBytes, endRecord_archiveBytes, Archive.slice_mk]
  cbv

theorem crc32_bytesPublicOnly : (Archive.crc32 bytesPublicOnly).toNat = 0x179E048D := by cbv

theorem readEntry_archive : archive.readEntry classEntry = .ok bytesPublicOnly := by
  have hslice : ∀ start size, Archive.slice archive.bytes start size =
      (archiveBytes.drop start).take size := Archive.slice_mk archiveBytes
  have hheader : (archiveBytes.drop 32).take 30 = entryHeader classCrc classSize className := by
    cbv
  have hname : Archive.decodeName
      (Archive.field (entryHeader classCrc classSize className) 6 2)
      ((archiveBytes.drop 62).take 9) = .ok classEntry.fullName := by cbv
  have hdata : (archiveBytes.drop 71).take 59 = bytesPublicOnly := by cbv
  have hsize : archive.bytes.size = 255 := length_archiveBytes
  rw [Archive.readEntry_eq_expand rfl (by decide) ((hslice 32 30).trans hheader) rfl rfl rfl rfl
    ((congrArg _ (hslice 62 9)).trans hname) (by rw [hsize]; decide)]
  exact (congrArg _ ((hslice 71 59).trans hdata)).trans
    (Archive.expand_stored rfl rfl rfl crc32_bytesPublicOnly)

theorem nodup_bothWays : (bothWays.nodes.map (·.1)).Nodup := by decide

theorem isTree_bothWays : bothWays.IsTree := by
  refine Disk.isTree_of_nodes nodup_bothWays ?_ ?_
  · intro n hn i hi
    simp only [bothWays, List.mem_cons, List.not_mem_nil, or_false] at hn
    rcases hn with rfl | rfl | rfl | rfl | rfl <;> dsimp at hi <;> interval_cases i <;> rfl
  · decide

theorem isUnpacked_bundle : bundle.IsUnpacked bothWays ["a"] where
  stored f hf := by
    rw [bundle, List.mem_singleton] at hf
    subst hf
    rfl
  others parts bytes hn := by
    rw [Disk.node?_of_ne (by simp), lookup_eq_some_iff_mem nodup_bothWays] at hn
    have hfiles : parts = ["p", "A.class"] ∧ bytes = ⟨bytesPublicOnly.toArray⟩ ∨
        parts = ["notes"] ∧ bytes = .empty := by simpa [bothWays] using hn
    rcases hfiles with ⟨rfl, -⟩ | ⟨rfl, -⟩
    · exact .inl ⟨_, List.mem_singleton_self _, rfl⟩
    · exact .inr (.resource (by decide))

theorem isArchived_bundle : bundle.IsArchived archive where
  stored f hf := by
    rw [bundle, List.mem_singleton] at hf
    subst hf
    exact ⟨classEntry, by cbv, readEntry_archive⟩
  others e he hfile := by
    simp only [archive, List.mem_cons, List.not_mem_nil, or_false] at he
    rcases he with rfl | rfl
    · cases hfile
    · exact .inl ⟨_, List.mem_singleton_self _, by cbv⟩
  named := by decide

theorem packedAt_folder : bundle.PackedAt bothWays [] Sample.target :=
  .folder rfl rfl isUnpacked_bundle

theorem packedAt_archive : bundle.PackedAt bothWays [] archivePath :=
  .archive rfl rfl ofBytes_archiveBytes isArchived_bundle

theorem classAt?_file : classAt? ["p", "A.class"] = some "p.A" := by decide

theorem mem_names_bundle {name : String} : name ∈ bundle.names ↔ name = "p.A" := by
  rw [Bundle.mem_names, bundle]
  simp [classAt?_file, eq_comm]

theorem bytes?_bundle (name : String) :
    bundle.bytes? name = if name = "p.A" then some bytesPublicOnly else none := by
  split_ifs with hA
  · rw [hA]
    exact bundle.bytes?_of_mem (List.mem_singleton_self _) classAt?_file
  · rwa [Bundle.bytes?_eq_none_iff, mem_names_bundle]

/-- The class is all that a handle gives, when the class path holds it once more. -/
theorem sameUpTo_of_gives {h : Handle} (hg : h.Gives bothWays [] bundle [bundle]) :
    (h.table bothWays []).SameUpTo (fun _ _ => True) Eq (table publicOnly) where
  own := by
    have hnames : ∀ name, name ∈ h.own.names ↔ name ∈ ["p.A"] := fun name => by
      rw [hg.own.mem_names, mem_names_bundle, List.mem_singleton]
    exact (Names.sorted_distinct_congr hnames).trans (by cbv)
  defined name := by
    rw [Handle.table, hg.mem_names, mem_names_bundle]
    simp [mem_names_bundle, table]
  lookUp name := by
    have hfind : h.find bothWays [] name =
        .ok (if name = "p.A" then some (bytesPublicOnly, .target) else none) := by
      rw [hg.find_eq, Bundle.find?, List.findSome?_singleton, bytes?_bundle]
      split_ifs <;> rfl
    simp only [Handle.table, table, Handle.lookUp, hfind]
    by_cases hA : name = "p.A"
    · simp only [hA, if_true, Handle.parsed, parse_bytesPublicOnly]
      exact .ok (.some ⟨rfl, rfl⟩)
    · simp only [hA, if_false]
      exact .ok .none

theorem render_of_gives {h : Handle} (hg : h.Gives bothWays [] bundle [bundle]) (entry : Path) :
    (render (settingsWith entry) bothWays [] h).outcome =
      .ok "public abstract class p.A\n  public void m()\n##\n" := by
  have hend : EndAlike (fun _ _ => True) Eq (render (settingsWith entry) bothWays [] h).outcome
      (renderTable (Sample.settings []) (table publicOnly) Sample.target).outcome :=
    renderTable_alike (fun _ => trivial) (fun _ => trivial) (sameUpTo_of_gives hg).alike_of_eq _
  exact hend.eq_ok_iff.mpr renderTable_publicOnly

end MemberSample

/-! ## 4. The text -/

/-- The target and every entry of the class path can be packaged either way: opening them
gives the same classes, and the scans have the same texts. -/
theorem render_packaging (s₁ s₂ : Settings) {d₁ d₂ : Disk} {home₁ home₂ : Place}
    {target₁ target₂ : Path} {b : Bundle} {classpath : List Bundle}
    (hs : { s₁ with sources := [], classpath := [] } = { s₂ with sources := [], classpath := [] })
    (ht₁ : d₁.IsTree) (ht₂ : d₂.IsTree)
    (htarget₁ : b.PackedAt d₁ home₁ target₁) (htarget₂ : b.PackedAt d₂ home₂ target₂)
    (hpaths₁ : List.Forall₂ (fun b p => b.PackedAt d₁ home₁ p) classpath s₁.classpath)
    (hpaths₂ : List.Forall₂ (fun b p => b.PackedAt d₂ home₂ p) classpath s₂.classpath) :
    ∃ h₁ h₂, (Handle.resolve d₁ home₁ target₁ s₁.classpath).outcome = .ok h₁ ∧
      (Handle.resolve d₂ home₂ target₂ s₂.classpath).outcome = .ok h₂ ∧
      h₁.Gives d₁ home₁ b classpath ∧ h₂.Gives d₂ home₂ b classpath ∧
      ∀ text, (render s₁ d₁ home₁ h₁).outcome = .ok text ↔
        (render s₂ d₂ home₂ h₂).outcome = .ok text := by
  obtain ⟨h₁, hr₁, hg₁⟩ := Handle.exists_resolve ht₁ htarget₁ hpaths₁
  obtain ⟨h₂, hr₂, hg₂⟩ := Handle.exists_resolve ht₂ htarget₂ hpaths₂
  refine ⟨h₁, h₂, hr₁, hr₂, hg₁, hg₂, fun text => ?_⟩
  -- A scan does not look at the places that the settings name.
  have hsettings : (render s₁ d₁ home₁ h₁).outcome = (render s₂ d₁ home₁ h₁).outcome :=
    (congrArg (fun s => (render s d₁ home₁ h₁).outcome) hs :)
  rw [hsettings]
  exact (renderTable_alike (fun _ => trivial) (fun _ => trivial) (hg₁.alike_table hg₂) s₂).eq_ok_iff

/-- The small class has the same text from a folder, with an archive of it in the class path,
and from the archive, with the folder in the class path. -/
theorem render_packaging_of_sample :
    ∃ h₁ h₂, (Handle.resolve MemberSample.bothWays [] Sample.target
        [MemberSample.archivePath]).outcome = .ok h₁ ∧
      (Handle.resolve MemberSample.bothWays [] MemberSample.archivePath
        [Sample.target]).outcome = .ok h₂ ∧
      (render (MemberSample.settingsWith MemberSample.archivePath) MemberSample.bothWays [] h₁).outcome =
        .ok "public abstract class p.A\n  public void m()\n##\n" ∧
      (render (MemberSample.settingsWith Sample.target) MemberSample.bothWays [] h₂).outcome =
        .ok "public abstract class p.A\n  public void m()\n##\n" := by
  obtain ⟨h₁, h₂, hr₁, hr₂, hg₁, -, htext⟩ := render_packaging
    (MemberSample.settingsWith MemberSample.archivePath) (MemberSample.settingsWith Sample.target) rfl
    MemberSample.isTree_bothWays MemberSample.isTree_bothWays
    MemberSample.packedAt_folder MemberSample.packedAt_archive
    (.cons MemberSample.packedAt_archive .nil) (.cons MemberSample.packedAt_folder .nil)
  have hrender := MemberSample.render_of_gives hg₁ MemberSample.archivePath
  exact ⟨h₁, h₂, hr₁, hr₂, hrender, (htext _).mp hrender⟩

end Scan

end ApiSurface
