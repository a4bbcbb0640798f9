/-
ApiSurface.Proofs.Scan.FolderTargets — the scan of a folder without a class path.

Such a scan sees the class files of the folder and nothing else
(`Handle.table_of_folder`), so what it sees can be written down as a list of class files.
A class without annotations is public whatever the annotations mean, and so the scan of
classes like that can be put together from its stages (`Scan.stages_of_isPlain`) without
looking at the classification.
-/
import ApiSurface.Proofs.Scan.Blocks
import ApiSurface.Proofs.Universe.Table

namespace ApiSurface

/-! ## 1. What a scan sees -/

/-- The table of some class files, all of the target, and of nothing else. -/
def ClassTable.ofFiles (files : List (String × ClassFile)) : ClassTable where
  own := files.map (·.1)
  defined := files.map (·.1)
  lookUp name := .ok ((files.lookup name).map fun file => ⟨file, false⟩)

variable {files : List (String × ClassFile)}

namespace ClassTable

@[simp] theorem file?_ofFiles (name : String) : (ofFiles files).file? name = files.lookup name := by
  cases h : files.lookup name <;> simp [file?, ofFiles, h]

theorem lookUp_ofFiles_cons (key : String) (file : ClassFile) (name : String) :
    (ofFiles ((key, file) :: files)).lookUp name =
      if name = key then .ok (some ⟨file, false⟩) else (ofFiles files).lookUp name := by
  simp only [ofFiles, List.lookup_cons]
  split_ifs with h
  · rw [beq_iff_eq.mpr h]
    rfl
  · rw [beq_eq_false_iff_ne.mpr h]

theorem mem_of_file?_ofFiles {name : String} {file : ClassFile}
    (h : (ofFiles files).file? name = some file) : (name, file) ∈ files := by
  rw [file?_ofFiles] at h
  induction files with
  | nil => cases h
  | cons entry rest ih =>
    obtain ⟨key, first⟩ := entry
    rw [List.lookup_cons] at h
    cases hk : name == key with
    | true =>
      rw [hk, Option.some_inj] at h
      rw [h, beq_iff_eq.mp hk]
      exact List.mem_cons_self
    | false =>
      rw [hk] at h
      exact List.mem_cons_of_mem _ (ih h)

theorem storedByName_ofFiles (h : ∀ entry ∈ files, entry.2.name = entry.1) :
    (ofFiles files).StoredByName := by
  intro name file hfile
  exact h _ (mem_of_file?_ofFiles hfile)

end ClassTable

theorem Names.distinct_of_nodup {names : List String} (h : names.Nodup) : distinct names = names := by
  induction names with
  | nil => rfl
  | cons name rest ih =>
    obtain ⟨hname, hrest⟩ := List.nodup_cons.mp h
    have hfilter : (rest.filter fun other => !other == name) = rest := by
      rw [List.filter_eq_self]
      intro other hother
      have : other ≠ name := fun e => hname (e ▸ hother)
      simpa using this
    rw [distinct, List.eraseDups_cons, hfilter]
    exact congrArg (name :: ·) (ih hrest)

theorem Names.sorted_of_lt {names : List String} (h : names.Pairwise (· < ·)) :
    sorted names = names :=
  List.mergeSort_of_pairwise (h.imp fun hlt => decide_eq_true hlt.le)

namespace Handle

variable {d : Disk} {home : Place} {h : Handle} {entries : List (String × Path)}

/-- The entries of a folder hold some class files, under the same names. -/
def Holds (d : Disk) (home : Place) :
    List (String × Path) → List (String × ClassFile) → Prop :=
  List.Forall₂ fun entry file => entry.1 = file.1 ∧
    ∃ bytes, d.read home entry.2 = .ok bytes ∧ ClassFile.parse bytes.data.toList = .ok file.2

theorem Holds.map_fst (hfiles : Holds d home entries files) :
    entries.map (·.1) = files.map (·.1) := by
  induction hfiles with
  | nil => rfl
  | cons hentry _ ih => simp [hentry.1, ih]

/-- Looking a class up in a folder finds the class file under its name. -/
theorem Holds.lookUp (hfiles : Holds d home entries files) (hown : h.own = .folder entries)
    (hdeps : h.dependencies = []) (name : String) :
    h.lookUp d home name = (ClassTable.ofFiles files).lookUp name := by
  have hread : h.own.read d home name = .ok none ∧ files.lookup name = none ∨
      ∃ bytes file, h.own.read d home name = .ok (some bytes) ∧
        ClassFile.parse bytes = .ok file ∧ files.lookup name = some file := by
    rw [hown]
    clear hown
    induction hfiles with
    | nil => exact .inl ⟨rfl, rfl⟩
    | @cons entry file _ _ hentry _ ih =>
      obtain ⟨hname, bytes, hbytes, hparse⟩ := hentry
      rw [Source.read, List.lookup_cons, List.lookup_cons, hname]
      cases name == file.1 with
      | true => exact .inr ⟨bytes.data.toList, file.2, by simp [hbytes], hparse, rfl⟩
      | false => exact ih
  rcases hread with ⟨hread, hlookup⟩ | ⟨bytes, file, hread, hparse, hlookup⟩
  · simp [Handle.lookUp, find, hread, hdeps, findIn, ClassTable.ofFiles, hlookup, bind, Except.bind,
      pure, Except.pure]
  · simp [Handle.lookUp, find, hread, parsed, hparse, ClassTable.ofFiles, hlookup, bind, Except.bind,
      pure, Except.pure, Except.map]

/-- A scan of a folder without a class path sees the class files of the folder. -/
theorem table_of_folder (hown : h.own = .folder entries) (hdeps : h.dependencies = [])
    (hsorted : (files.map (·.1)).Pairwise (· < ·)) (hfiles : Holds d home entries files) :
    h.table d home = .ofFiles files := by
  have hnames : h.own.names = files.map (·.1) := by
    rw [hown]
    exact hfiles.map_fst
  have hdistinct : Names.distinct (files.map (·.1)) = files.map (·.1) :=
    Names.distinct_of_nodup (hsorted.imp fun hlt => hlt.ne)
  have htargetNames : h.targetNames = files.map (·.1) := by
    rw [targetNames, hnames, hdistinct, Names.sorted_of_lt hsorted]
  have hdefined : h.names = files.map (·.1) := by
    rw [names, hnames, hdeps]
    simpa using hdistinct
  rw [table, htargetNames, hdefined, funext (hfiles.lookUp hown hdeps)]
  rfl

/-- Without a class path, opening a folder finds the files in it. -/
theorem resolve_folder {target : Path} (place : Place) (hplace : d.locate home target = .ok place)
    (hfolder : d.node? place = some .folder) (hown : h.own = .ofFolder target (d.filesBelow place))
    (htarget : h.target = target) (hdeps : h.dependencies = []) (hloaded : h.loaded = []) :
    (resolve d home target []).outcome = .ok h := by
  obtain ⟨_, own, dependencies, loaded⟩ := h
  simp only at hown htarget hdeps hloaded
  subst hown htarget hdeps hloaded
  simp only [resolve, openEntry, Source.openAt, hplace, hfolder]
  rfl

end Handle

/-! ## 2. Classes that are public whatever annotations mean -/

/-- A class of the target is public, and no annotation has a say in it. -/
structure ClassRecord.IsPlain (r : ClassRecord) (m : Markers) : Prop where
  package : m.isInternalPackage r.name = false
  isOwn : r.isExternal = false
  isNoAnnotationType : r.isAnnotationType = false
  annotations : r.annotations = []
  visible : Flags.isVisible r.modifiers = true
  enclosing : r.enclosing = none
  isNotSynthetic : r.isSynthetic = false

/-- A class is left out by its header alone: it is external or not visible. -/
def ClassRecord.IsHidden (r : ClassRecord) : Prop :=
  r.isExternal = true ∨ Flags.isVisible r.modifiers = false

namespace View

variable {v : View}

theorem publishes_of_isPlain (hm : v.metadata = none) {r : ClassRecord} (hr : r.IsPlain v.markers) :
    v.exclusionReason? r = .ok none := by
  refine exclusionReason?_eq_none_iff.mpr ⟨declaredReason?_eq_none_iff.mpr ?_, by simp [hm]⟩
  refine ⟨hr.package, hr.isOwn, fun ha => ?_, ?_, hr.visible, hr.enclosing, hr.isNotSynthetic⟩
  · rw [hr.isNoAnnotationType] at ha
    cases ha
  · rw [hr.annotations, Classification.hasInternal, List.any_nil]

theorem exists_reason_of_isHidden {r : ClassRecord} (hr : r.IsHidden) :
    ∃ reason, v.exclusionReason? r = .ok (some reason) := by
  cases hd : v.declaredReason? r with
  | some reason => exact ⟨reason, by rw [exclusionReason?, hd]⟩
  | none =>
    obtain ⟨-, hown, -, -, hvisible, -⟩ := declaredReason?_eq_none_iff.mp hd
    rcases hr with he | he
    · rw [hown] at he
      cases he
    · rw [hvisible] at he
      cases he

/-- Of plain and hidden classes exactly the plain ones are selected. -/
theorem outcome_selectFrom_of_isPlain (hm : v.metadata = none) {isPublic : ClassRecord → Bool}
    {records : List ClassRecord}
    (h : ∀ r ∈ records, if isPublic r then r.IsPlain v.markers else r.IsHidden) :
    (v.selectFrom records).outcome = .ok (records.filter isPublic) := by
  induction records with
  | nil => rfl
  | cons r rest ih =>
    have hrest := ih fun r hr => h r (List.mem_cons_of_mem _ hr)
    have hr := h r List.mem_cons_self
    have hincludes : (v.includesClass r).outcome = .ok (isPublic r) := by
      cases hp : isPublic r with
      | true =>
        rw [hp, if_pos rfl] at hr
        simp only [includesClass, publishes_of_isPlain hm hr, Report.outcome_bind]
        rfl
      | false =>
        rw [hp, if_neg Bool.false_ne_true] at hr
        obtain ⟨reason, hreason⟩ := exists_reason_of_isHidden (v := v) hr
        simp only [includesClass, hreason, Report.outcome_bind]
        cases r.isExternal <;> rfl
    refine Report.outcome_bind_eq_ok.mpr ⟨_, hincludes, ?_⟩
    refine Report.outcome_bind_eq_ok.mpr ⟨_, hrest, ?_⟩
    cases hp : isPublic r <;> simp [hp]

end View

namespace Scan

variable {s : Settings} {t : ClassTable} {target : Path} {text : String}

/-- The stages of a scan of plain and hidden classes. -/
theorem stages_of_isPlain (known : Universe) (isPublic : ClassRecord → Bool)
    (hknown : (Universe.enumerate t s.exclusion target).outcome = .ok known)
    (hnote : t.lookUp Metadata.annotationName = .ok none)
    (hclasses : ∀ r ∈ known.classes, if isPublic r then r.IsPlain s.markers else r.IsHidden)
    (hsorted : (known.classes.filter isPublic).Pairwise fun a b => a.name ≤ b.name)
    (htext : ∀ c, (Snapshot.render ⟨known, c, s.markers, s.excludedMethods, none⟩
      (known.classes.filter isPublic)).outcome = .ok text) :
    Stages s t target known none (known.classes.filter isPublic) text where
  enumerates := hknown
  resolves := by
    rw [Metadata.outcome_resolve, hnote]
    rfl
  includes := by
    refine Report.outcome_bind_eq_ok.mpr ⟨_, View.outcome_selectFrom_of_isPlain rfl hclasses, ?_⟩
    exact congrArg Except.ok (List.mergeSort_of_pairwise (hsorted.imp fun h => decide_eq_true h))
  renders := htext _

/-- The text of plain and hidden classes. -/
theorem renderTable_of_isPlain (known : Universe) (isPublic : ClassRecord → Bool)
    (hknown : (Universe.enumerate t s.exclusion target).outcome = .ok known)
    (hnote : t.lookUp Metadata.annotationName = .ok none)
    (hclasses : ∀ r ∈ known.classes, if isPublic r then r.IsPlain s.markers else r.IsHidden)
    (hsorted : (known.classes.filter isPublic).Pairwise fun a b => a.name ≤ b.name)
    (htext : ∀ c, (Snapshot.render ⟨known, c, s.markers, s.excludedMethods, none⟩
      (known.classes.filter isPublic)).outcome = .ok text) :
    (renderTable s t target).outcome = .ok text :=
  renderTable_eq_ok_iff.mpr
    ⟨known, none, _, stages_of_isPlain known isPublic hknown hnote hclasses hsorted htext⟩

/-- A folder without class files gives an empty text. -/
theorem render_of_no_files {d : Disk} {home : Place} {h : Handle} (hown : h.own = .folder [])
    (hdeps : h.dependencies = []) : (render s d home h).outcome = .ok "" := by
  have hclose : Universe.close (.ofFiles []) [] [] .empty = .ok .empty := by rw [Universe.close]
  have hempty : (Universe.enumerate (.ofFiles []) s.exclusion h.target).outcome = .ok .empty :=
    Report.outcome_bind_eq_ok.mpr ⟨(.empty, []), rfl,
      Report.outcome_bind_eq_ok.mpr ⟨_, hclose, rfl⟩⟩
  rw [render, Handle.table_of_folder hown hdeps .nil .nil]
  exact renderTable_of_isPlain .empty (fun _ => true) hempty rfl (List.forall_mem_nil _) .nil
    fun _ => rfl

end Scan

end ApiSurface
