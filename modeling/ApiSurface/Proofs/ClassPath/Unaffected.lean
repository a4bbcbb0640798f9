/-
ApiSurface.Proofs.ClassPath.Unaffected — what a scan reads of the disk.

Of what stands where a path leads, opening it and reading its classes depend on a file
there, or on the files below a folder that define classes (`Path.Reads`). Nothing else on
the disk matters: as long as a disk evolves at other places, the same is opened, and the
same classes are read, byte by byte (`Handle.resolve_evolves`).

A file whose name ends like those of the results defines no class, wherever it is put, be
it in a folder that is searched, or in one with a name that ends like that of a class
(`classAt?_eq_none_of_text`).
-/
import ApiSurface.Proofs.ClassPath.Packaging
import ApiSurface.Proofs.Disk.Evolves
import ApiSurface.Universe.Enumeration

namespace ApiSurface

/-! ## 1. What is read -/

/-- A scan of what a path means depends on what is at a place: it is this place, or one below
it where a file defines a class. -/
def Path.Reads (home : Place) (p : Path) (q : Place) : Prop :=
  ∃ parts, q = p.destination home ++ parts ∧ (parts = [] ∨ (classAt? parts).isSome)

/-- A file with the ending of results defines no class. -/
theorem classAt?_eq_none_of_text (front : List String) (name : String) :
    classAt? (front ++ [name ++ ".txt"]) = none := by
  cases hclass : classAt? (front ++ [name ++ ".txt"]) with
  | none => rfl
  | some class_ =>
    have hrow : (entryName (front ++ [name ++ ".txt"])).toList =
        "/".toList.intercalate ((front ++ [name]).map String.toList) ++ ".txt".toList := by
      rw [entryName, String.toList_intercalate, List.map_append, List.map_singleton,
        String.toList_append, intercalate_concat_append, List.map_append, List.map_singleton]
    have hlast := getLast?_of_classDefinedBy? hclass
    rw [hrow, List.getLast?_append] at hlast
    simp at hlast

/-- A place is one where no file can define a class, whichever folder is searched. -/
def DefinesNone (q : Place) : Prop := ∀ place parts, q = place ++ parts → classAt? parts = none

theorem definesNone_text (folder : Place) (name : String) :
    DefinesNone (folder ++ [name ++ ".txt"]) := by
  intro place parts hplace
  rcases List.eq_nil_or_concat parts with rfl | ⟨front, last, rfl⟩
  · rfl
  · rw [List.concat_eq_append, ← List.append_assoc] at hplace
    obtain ⟨-, hlast⟩ := List.append_inj' hplace rfl
    rw [List.concat_eq_append, ← hlast]
    exact classAt?_eq_none_of_text front name

/-- Such a place is read by no path but one that leads just there. -/
theorem DefinesNone.not_reads {home q : Place} {p : Path} (h : DefinesNone q)
    (hne : q ≠ p.destination home) : ¬ p.Reads home q := by
  rintro ⟨parts, hplace, rfl | hclass⟩
  · exact hne (by rw [hplace, List.append_nil])
  · rw [h _ parts hplace] at hclass
    cases hclass

/-- The files that define classes can be reached from wherever they are searched, and no
place has two nodes. -/
structure Disk.Leads (d : Disk) : Prop where
  distinct : d.HasDistinctPlaces
  follow : ∀ place parts bytes, (classAt? parts).isSome →
    d.node? (place ++ parts) = some (.file bytes) → d.follow place parts = .ok (place ++ parts)
  notNull : ∀ place parts bytes, (classAt? parts).isSome →
    d.node? (place ++ parts) = some (.file bytes) → ∀ part ∈ parts, Char.ofNat 0 ∉ part.toList

theorem Disk.IsTree.leads {d : Disk} (ht : d.IsTree) : d.Leads where
  distinct := ht.nodup
  follow place parts bytes _ hn := ht.follow_below (by rw [hn]; rfl)
  notNull place parts bytes _ hn := ht.notNull_below (by rw [hn]; rfl)

section

variable {changed made written : Place → Prop} {d d' : Disk} {home : Place} {p : Path}

/-- Class files can still be reached after files were written that define none. -/
theorem Disk.Leads.evolves (hd : d.Leads) (h : Disk.Evolves changed made written d d')
    (hw : ∀ q, written q → DefinesNone q) : d'.Leads := by
  have hfile : ∀ place parts, (classAt? parts).isSome →
      (∃ bytes, d'.node? (place ++ parts) = some (.file bytes)) →
      ∃ bytes, d.node? (place ++ parts) = some (.file bytes) := by
    intro place parts hclass hn
    refine (h.file_iff fun hwritten => ?_).mpr hn
    rw [hw _ hwritten place parts rfl] at hclass
    cases hclass
  constructor
  · exact h.distinct hd.distinct
  · intro place parts bytes hclass hn
    obtain ⟨old, hold⟩ := hfile place parts hclass ⟨bytes, hn⟩
    exact h.preserves.follow (hd.follow place parts old hclass hold)
  · intro place parts bytes hclass hn
    obtain ⟨old, hold⟩ := hfile place parts hclass ⟨bytes, hn⟩
    exact hd.notNull place parts old hclass hold

/-! ## 2. Sources -/

variable (hd : d.Leads) (h : Disk.Evolves changed made written d d')
  (hp : ∀ q, changed q ∨ written q → ¬ p.Reads home q)

theorem Source.find_of_openAt {s : Source} (hopen : openAt d home p = .ok s) :
    ∃ node, d.find home p = .ok node := by
  unfold openAt at hopen
  split at hopen
  · cases hopen
  next place hl =>
  obtain rfl := Disk.locate_eq_ok hl
  split at hopen
  · cases hopen
  · next hn => exact ⟨_, Disk.find_eq_ok_iff.mpr ⟨hl, hn⟩⟩
  · next hn => exact ⟨_, Disk.find_eq_ok_iff.mpr ⟨hl, hn⟩⟩

/-- A folder is a source by those of its files that define classes. -/
theorem Source.ofFolder_eq {files files' : List (List String)}
    (hsame : files.filter (fun parts => (classAt? parts).isSome) =
      files'.filter fun parts => (classAt? parts).isSome) :
    Source.ofFolder p files = Source.ofFolder p files' := by
  have hfilter : ∀ files : List (List String),
      (files.filterMap fun parts => (classDefinedBy? ("/".intercalate parts)).map
        (·, ({ p with parts := p.parts ++ parts } : Path))) =
      (files.filter fun parts => (classAt? parts).isSome).filterMap fun parts =>
        (classDefinedBy? ("/".intercalate parts)).map
          (·, ({ p with parts := p.parts ++ parts } : Path)) := by
    intro files
    rw [List.filterMap_filter]
    refine congrArg (List.filterMap · files) (funext fun parts => ?_)
    cases hclass : classAt? parts with
    | none =>
      rw [classAt?, entryName] at hclass
      rw [hclass]
      rfl
    | some name => rfl
  rw [ofFolder, ofFolder, hfilter files, hfilter files', hsame]

include hd h hp

/-- What is found at a path is opened alike later. -/
theorem Source.openAt_evolves {node : Node} (hfind : d.find home p = .ok node) :
    openAt d' home p = openAt d home p := by
  obtain ⟨hl, hn⟩ := Disk.find_eq_ok_iff.mp hfind
  have hl' := h.preserves.locate hl
  cases node with
  | file bytes =>
    have hn' := h.preserves.file _ bytes (fun hc => hp _ (.inl hc) ⟨[], by simp, .inl rfl⟩) hn
    simp only [openAt, hl, hl', hn, hn']
  | folder =>
    have hn' := h.folder _ hn
    have hfiles : ∀ parts, (classAt? parts).isSome = true →
        ((∃ bytes, d'.node? (p.destination home ++ parts) = some (.file bytes)) ↔
          ∃ bytes, d.node? (p.destination home ++ parts) = some (.file bytes)) := fun parts hclass =>
      (h.file_iff fun hw => hp _ (.inr hw) ⟨parts, rfl, .inr hclass⟩).symm
    have hsame : ofFolder p (d'.filesBelow (p.destination home)) =
        ofFolder p (d.filesBelow (p.destination home)) :=
      ofFolder_eq (Disk.filter_filesBelow_eq (h.distinct hd.distinct) hd.distinct rfl hfiles)
    simp only [openAt, hl, hl', hn, hn', hsame]

/-- A class file below a path is read there, now and later. -/
theorem Disk.Leads.read_evolves (hl : d.locate home p = .ok (p.destination home))
    {parts : List String} {bytes : ByteArray} (hclass : (classAt? parts).isSome)
    (hn : d.node? (p.destination home ++ parts) = some (.file bytes)) :
    d.read home { p with parts := p.parts ++ parts } = .ok bytes ∧
      d'.read home { p with parts := p.parts ++ parts } = .ok bytes := by
  have hlocate := Disk.locate_append hl (hd.notNull _ parts bytes hclass hn)
    (hd.follow _ parts bytes hclass hn)
  have hplace := locate_eq_ok hlocate
  have hfile : d.HasFile home { p with parts := p.parts ++ parts } bytes :=
    ⟨hplace ▸ hlocate, hplace ▸ hn⟩
  refine ⟨hfile.read, (hfile.preserved h.preserves fun hc => ?_).read⟩
  rw [← hplace] at hc
  exact hp _ (.inl hc) ⟨parts, rfl, .inr hclass⟩

/-- What was opened gives the same classes later. -/
theorem Source.read_evolves {s : Source} (hopen : openAt d home p = .ok s) (name : String) :
    s.read d' home name = s.read d home name := by
  unfold openAt at hopen
  split at hopen
  · cases hopen
  next place hl =>
  obtain rfl := Disk.locate_eq_ok hl
  split at hopen
  · cases hopen
  · cases hopen
    rw [ofFolder, read, read, lookup_ofFolder]
    cases hfound : (d.filesBelow (p.destination home)).find? (classAt? · == some name) with
    | none => rfl
    | some parts =>
      have hclass : classAt? parts = some name := by simpa using List.find?_some hfound
      have hne : parts ≠ [] := by
        rintro rfl
        cases hclass
      obtain ⟨bytes, hn⟩ := (Disk.mem_filesBelow_iff hd.distinct hne).mp
        (List.mem_of_find?_eq_some hfound)
      obtain ⟨hread, hread'⟩ := hd.read_evolves h hp hl (by rw [hclass]; rfl) hn
      simp only [Option.map_some, hread, hread']
  · split at hopen
    · unfold ofArchive at hopen
      split_ifs at hopen
      cases hopen
      rfl
    · cases hopen

end

/-! ## 3. Handles -/

namespace Handle

variable {changed made written : Place → Prop} {d d' : Disk} {home : Place} {target : Path}
  {classpath : List Path} {handle : Handle}

theorem openEntry_evolves (hd : d.Leads) (h : Disk.Evolves changed made written d d') {p : Path}
    (hp : ∀ q, changed q ∨ written q → ¬ p.Reads home q) {s : Source}
    (hopen : openEntry d home p = .ok s) : openEntry d' home p = .ok s := by
  obtain ⟨node, hfind⟩ := Source.find_of_openAt (openEntry_eq_ok hopen)
  unfold openEntry at hopen ⊢
  rw [Source.openAt_evolves hd h hp hfind, hopen]

theorem findIn_congr {sources : List Source} {name : String}
    (hsame : ∀ s ∈ sources, s.read d' home name = s.read d home name) :
    findIn d' home name sources = findIn d home name sources := by
  induction sources with
  | nil => rfl
  | cons s rest ih =>
    obtain ⟨hs, hrest⟩ := List.forall_mem_cons.mp hsame
    rw [findIn, findIn, hs, ih hrest]

/-- What was opened for a scan is opened again as long as the disk evolves at other places, and
the same classes are seen through it. -/
theorem resolve_evolves (hd : d.Leads) (h : Disk.Evolves changed made written d d')
    (hp : ∀ p ∈ target :: classpath, ∀ q, changed q ∨ written q → ¬ p.Reads home q)
    (hresolve : (resolve d home target classpath).outcome = .ok handle) :
    (resolve d' home target classpath).outcome = .ok handle ∧
      handle.table d' home = handle.table d home := by
  obtain ⟨htarget, hclasspath⟩ := List.forall_mem_cons.mp hp
  obtain ⟨dependencies, hdependencies, hresolve⟩ := Report.outcome_bind_eq_ok.mp hresolve
  obtain ⟨own, hown, hresolve⟩ := Report.outcome_bind_eq_ok.mp hresolve
  obtain ⟨_, -, hresolve⟩ := Report.outcome_bind_eq_ok.mp hresolve
  cases hresolve
  have hentries := mapM_eq_ok.mp hdependencies
  have hlookUp : ∀ name, lookUp d' home ⟨target, own, dependencies, []⟩ name =
      lookUp d home ⟨target, own, dependencies, []⟩ name := by
    intro name
    have hsources : ∀ s ∈ dependencies, s.read d' home name = s.read d home name := by
      intro s hs
      obtain ⟨entry, hentry, hopen⟩ := exists_of_mem_right hentries hs
      exact Source.read_evolves hd h (hclasspath entry hentry) (openEntry_eq_ok hopen) name
    rw [lookUp, lookUp, find, find, findIn_congr hsources,
      Source.read_evolves hd h htarget (openEntry_eq_ok hown) name]
  constructor
  · refine Report.outcome_bind_eq_ok.mpr ⟨dependencies, mapM_eq_ok.mpr ?_, ?_⟩
    · obtain ⟨pairs, hleft, hright, hall⟩ := forall₂_iff_exists_pairs.mp hentries
      refine forall₂_iff_exists_pairs.mpr ⟨pairs, hleft, hright, fun pair hpair => ?_⟩
      have hmem : pair.1 ∈ classpath := hleft ▸ List.mem_map_of_mem hpair
      exact openEntry_evolves hd h (hclasspath _ hmem) (hall pair hpair)
    · refine Report.outcome_bind_eq_ok.mpr ⟨own, openEntry_evolves hd h htarget hown, ?_⟩
      exact Report.outcome_bind_eq_ok.mpr ⟨(), rfl, rfl⟩
  · rw [table, table, funext hlookUp]

end Handle

end ApiSurface
