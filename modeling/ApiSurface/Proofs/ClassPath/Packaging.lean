/-
ApiSurface.Proofs.ClassPath.Packaging — what is packaged can be read, however it is packaged.

A bundle is what an artifact holds: class files by their paths. It can be packaged as an
archive or as a folder, and both may hold more: resources, overlays, descriptions of
modules and packages, and entries or folders that stand for folders. `Bundle.PackedAt`
says that one of these stands where a path leads. An archive makes its table of classes
from its directory, a folder from a search in the order of places. But no two files of a
bundle define the same class and what comes beside them defines none, so either table
leads from a name to the one file that defines it (`PackedAt.exists_gives`).

That an archive gives back the bytes that were put into it is what `IsArchived` asks of
its directory and of its data.
-/
import ApiSurface.Proofs.ClassPath.Lookup
import ApiSurface.Proofs.Disk.Search

namespace ApiSurface

/-! ## 1. Bundles -/

/-- The name of an entry at a path. -/
def entryName (parts : List String) : String := "/".intercalate parts

/-- The class that a file at a path defines. -/
def classAt? (parts : List String) : Option String := classDefinedBy? (entryName parts)

/-- The class files of an artifact by their paths. No two of them define the same class. -/
structure Bundle where
  files : List (Place × List UInt8)
  isClass : ∀ f ∈ files, (classAt? f.1).isSome
  distinct : (files.map fun f => classAt? f.1).Nodup

namespace Bundle

/-- The names of the classes. -/
def names (b : Bundle) : List String := b.files.filterMap fun f => classAt? f.1

/-- The bytes of a class. -/
def bytes? (b : Bundle) (name : String) : Option (List UInt8) :=
  (b.files.find? fun f => classAt? f.1 == some name).map (·.2)

variable {b : Bundle} {name : String}

theorem mem_names : name ∈ b.names ↔ ∃ f ∈ b.files, classAt? f.1 = some name := List.mem_filterMap

/-- A class has the bytes of the file that defines it. -/
theorem bytes?_of_mem {f : Place × List UInt8} (hf : f ∈ b.files)
    (hname : classAt? f.1 = some name) : b.bytes? name = some f.2 := by
  rw [bytes?]
  cases hg : b.files.find? fun f => classAt? f.1 == some name with
  | none => exact absurd hname (by simpa using List.find?_eq_none.mp hg f hf)
  | some g =>
    have hclass : classAt? g.1 = some name := by simpa using List.find?_some hg
    rw [List.inj_on_of_nodup_map b.distinct (List.mem_of_find?_eq_some hg) hf
      (hclass.trans hname.symm), Option.map_some]

theorem bytes?_eq_none_iff : b.bytes? name = none ↔ name ∉ b.names := by
  rw [bytes?, Option.map_eq_none_iff, List.find?_eq_none, mem_names]
  simp

end Bundle

/-! ## 2. What comes beside the classes -/

/-- An entry that defines no class. -/
inductive IsExtra (entry : String) : Prop where
  | resource : ¬ classEnding <:+ entry.toList → IsExtra entry
  | overlay : overlayFolder <+: entry.toList → IsExtra entry
  | description {folder last : List Char} : last ∈ descriptionNames →
      folder = [] ∨ folder.getLast? = some '/' →
        entry.toList = folder ++ last ++ classEnding → IsExtra entry

/-- The part of a path behind its last slash. -/
theorem takeWhile_reverse_eq {folder last : List Char} (hlast : '/' ∉ last)
    (hfolder : folder = [] ∨ folder.getLast? = some '/') :
    ((folder ++ last).reverse.takeWhile (· != '/')).reverse = last := by
  have hno : ∀ c ∈ last.reverse, (c != '/') = true := by
    intro c hc
    rw [bne_iff_ne]
    rintro rfl
    exact hlast (List.mem_reverse.mp hc)
  rw [List.reverse_append, List.takeWhile_append_of_pos hno, List.reverse_append,
    List.reverse_reverse]
  rcases hfolder with rfl | hfolder
  · simp
  · rw [List.getLast?_eq_head?_reverse, List.head?_eq_some_iff] at hfolder
    obtain ⟨rest, hrest⟩ := hfolder
    simp [hrest]

theorem classDefinedBy?_of_isExtra {entry : String} (h : IsExtra entry) :
    classDefinedBy? entry = none := by
  cases h with
  | resource h =>
    rw [classDefinedBy?, if_neg]
    simpa using fun hs => absurd hs h
  | overlay h =>
    rw [classDefinedBy?, if_neg]
    simpa using fun _ => h
  | @description folder last hlast hfolder hentry =>
    have hslash : ∀ name ∈ descriptionNames, '/' ∉ name := by decide
    have hstem : entry.toList.take (entry.toList.length - classEnding.length) = folder ++ last := by
      rw [hentry, List.length_append, Nat.add_sub_cancel, List.take_left]
    have hdescription : descriptionNames.contains last = true := List.contains_iff_mem.mpr hlast
    simp only [classDefinedBy?, hstem, takeWhile_reverse_eq (hslash last hlast) hfolder,
      hdescription, if_true, ite_self]

/-- The entry of a class is no folder. -/
theorem getLast?_of_classDefinedBy? {entry name : String} (h : classDefinedBy? entry = some name) :
    entry.toList.getLast? = some 's' := by
  rw [classDefinedBy?] at h
  dsimp only at h
  split_ifs at h with hclass
  rw [Bool.and_eq_true, List.isSuffixOf_iff_suffix] at hclass
  obtain ⟨stem, hstem⟩ := hclass.1
  rw [← hstem, List.getLast?_append]
  rfl

/-! ## 3. Packaging -/

/-- An archive holds a bundle, and beside its classes nothing that defines one. -/
structure Bundle.IsArchived (b : Bundle) (a : Archive) : Prop where
  /-- The name of a class leads to an entry with the bytes of the class. -/
  stored : ∀ f ∈ b.files, ∃ e, a.entry? (entryName f.1) = some e ∧ a.readEntry e = .ok f.2
  others : ∀ e ∈ a.entries, e.isFolder = false →
    (∃ f ∈ b.files, e.name = entryName f.1) ∨ IsExtra e.name
  named : ∀ e ∈ a.entries, e.name ≠ ""

/-- A folder holds a bundle, and beside its classes no file that defines one. -/
structure Bundle.IsUnpacked (b : Bundle) (d : Disk) (place : Place) : Prop where
  stored : ∀ f ∈ b.files, d.node? (place ++ f.1) = some (.file ⟨f.2.toArray⟩)
  others : ∀ parts bytes, d.node? (place ++ parts) = some (.file bytes) →
    (∃ f ∈ b.files, parts = f.1) ∨ IsExtra (entryName parts)

/-- A bundle is packaged where a path leads: as an archive, or as a folder. -/
inductive Bundle.PackedAt (b : Bundle) (d : Disk) (home : Place) (p : Path) : Prop where
  | archive {place : Place} {content : ByteArray} {a : Archive} :
      d.locate home p = .ok place → d.node? place = some (.file content) →
        Archive.ofBytes content = .ok a → b.IsArchived a → b.PackedAt d home p
  | folder {place : Place} :
      d.locate home p = .ok place → d.node? place = some .folder →
        b.IsUnpacked d place → b.PackedAt d home p

/-- A source gives the classes of a bundle, and no others. -/
structure Source.Gives (s : Source) (d : Disk) (home : Place) (b : Bundle) : Prop where
  mem_names : ∀ name, name ∈ s.names ↔ name ∈ b.names
  read : ∀ name, s.read d home name = .ok (b.bytes? name)

/-! ## 4. Tables of classes -/

/-- The first of the entries of each name is the one that is found. -/
theorem Names.lookup_firstOfEach {α : Type} (entries : List (String × α)) (key : String) :
    (firstOfEach entries).lookup key = entries.lookup key := by
  have hfold : ∀ rest kept : List (String × α),
      (rest.foldl (fun kept entry =>
        if kept.any (·.1 == entry.1) then kept else kept ++ [entry]) kept).lookup key =
        (kept ++ rest).lookup key := by
    intro rest
    induction rest with
    | nil => simp
    | cons entry rest ih =>
      intro kept
      rw [List.foldl_cons, ih]
      split_ifs with hkept
      · rw [List.lookup_append, List.lookup_append, List.lookup_cons]
        by_cases hkey : key = entry.1
        · -- The name is among those kept, so the entry is not looked for behind them.
          obtain ⟨e, he, hname⟩ := List.any_eq_true.mp hkept
          have hmem : key ∈ kept.map (·.1) :=
            List.mem_map.mpr ⟨e, he, (beq_iff_eq.mp hname).trans hkey.symm⟩
          obtain ⟨value, hvalue⟩ := Option.isSome_iff_exists.mp (lookup_isSome_iff_mem.mpr hmem)
          rw [hvalue, Option.some_or, Option.some_or]
        · have hb : (key == entry.1) = false := by simpa using hkey
          rw [hb]
      · rw [List.append_assoc]
        rfl
  exact hfold entries []

/-- A table made from a list leads to the first element that has the name. -/
theorem lookup_filterMap {α β : Type} {name? : α → Option String} {value : α → β} {l : List α}
    {key : String} :
    (l.filterMap fun a => (name? a).map (·, value a)).lookup key =
      (l.find? fun a => name? a == some key).map value := by
  induction l with
  | nil => rfl
  | cons a l ih =>
    rw [List.filterMap_cons, List.find?_cons]
    cases hname : name? a with
    | none => simpa using ih
    | some name =>
      simp only [Option.map_some, List.lookup_cons]
      by_cases hk : key = name
      · simp [hk]
      · have hb : (key == name) = false := by simp [hk]
        have hb' : (some name == some key) = false := by simpa using Ne.symm hk
        rw [hb, hb', ih]

/-! ## 5. Opening what is packaged -/

variable {b : Bundle} {d : Disk} {home : Place}

/-- An archive leads from a name to the first of its entries that defines the class. -/
theorem Source.lookup_classesOf (entries : List String) (name : String) :
    (classesOf entries).lookup name = entries.find? (classDefinedBy? · == some name) := by
  rw [classesOf, Names.lookup_firstOfEach, lookup_filterMap, Option.map_id']

/-- The table of an archive leads from a name to the entry of the class. -/
theorem Bundle.IsArchived.read {a : Archive} (h : b.IsArchived a) (name : String) :
    (Source.archive a (Source.classesOf ((a.entries.filter fun e => !e.isFolder).map (·.name)))
      false).read d home name = .ok (b.bytes? name) := by
  rw [Source.read, Source.lookup_classesOf]
  cases hfound : ((a.entries.filter fun e => !e.isFolder).map (·.name)).find?
      (classDefinedBy? · == some name) with
  | none =>
    have hnone : name ∉ b.names := by
      intro hname
      obtain ⟨f, hf, hclass⟩ := Bundle.mem_names.mp hname
      obtain ⟨e, he, -⟩ := h.stored f hf
      have hename : e.name = entryName f.1 := by simpa using List.find?_some he
      have hefile : e.isFolder = false := by
        rw [Archive.Entry.isFolder, hename, getLast?_of_classDefinedBy? hclass]
        rfl
      have hmem : e ∈ a.entries := List.mem_reverse.mp (List.mem_of_find?_eq_some he)
      refine List.find?_eq_none.mp hfound (entryName f.1) ?_ (by simpa [classAt?] using hclass)
      exact List.mem_map.mpr ⟨e, List.mem_filter.mpr ⟨hmem, by simp [hefile]⟩, hename⟩
    simp only [Bundle.bytes?_eq_none_iff.mpr hnone]
  | some entry =>
    have hclass : classDefinedBy? entry = some name := by simpa using List.find?_some hfound
    obtain ⟨e, hmem, rfl⟩ := List.mem_map.mp (List.mem_of_find?_eq_some hfound)
    obtain ⟨hmem, hefile⟩ := List.mem_filter.mp hmem
    rcases h.others e hmem (by simpa using hefile) with ⟨f, hf, hname⟩ | hextra
    · obtain ⟨e', he', hread⟩ := h.stored f hf
      rw [hname] at hclass
      simp only [hname, he', hread, b.bytes?_of_mem hf hclass]
      rfl
    · rw [classDefinedBy?_of_isExtra hextra] at hclass
      cases hclass

/-- A folder leads from a name to the first of its files that defines the class. -/
theorem Source.lookup_ofFolder (p : Path) (files : List (List String)) (name : String) :
    (Names.firstOfEach (files.filterMap fun parts =>
      (classDefinedBy? ("/".intercalate parts)).map
        (·, ({ p with parts := p.parts ++ parts } : Path)))).lookup name =
      (files.find? (classAt? · == some name)).map fun parts =>
        { p with parts := p.parts ++ parts } :=
  (Names.lookup_firstOfEach _ _).trans lookup_filterMap

/-- The table of a folder leads from a name to the file of the class. -/
theorem Bundle.IsUnpacked.read {p : Path} {place : Place} (h : b.IsUnpacked d place)
    (ht : d.IsTree) (hp : d.locate home p = .ok place) (name : String) :
    (Source.ofFolder p (d.filesBelow place)).read d home name = .ok (b.bytes? name) := by
  have hparts : ∀ parts, classAt? parts = some name → parts ≠ [] := by
    rintro _ hclass rfl
    cases hclass
  rw [Source.ofFolder, Source.read, Source.lookup_ofFolder]
  cases hfound : (d.filesBelow place).find? (classAt? · == some name) with
  | none =>
    have hnone : name ∉ b.names := by
      intro hname
      obtain ⟨f, hf, hclass⟩ := Bundle.mem_names.mp hname
      refine List.find?_eq_none.mp hfound f.1 ?_ (by simpa using hclass)
      exact (Disk.mem_filesBelow_iff ht.nodup (hparts f.1 hclass)).mpr ⟨_, h.stored f hf⟩
    simp only [Option.map_none, Bundle.bytes?_eq_none_iff.mpr hnone]
  | some parts =>
    have hclass : classAt? parts = some name := by simpa using List.find?_some hfound
    obtain ⟨bytes, hbytes⟩ :=
      (Disk.mem_filesBelow_iff ht.nodup (hparts parts hclass)).mp (List.mem_of_find?_eq_some hfound)
    rcases h.others parts bytes hbytes with ⟨f, hf, rfl⟩ | hextra
    · simp only [Option.map_some, ht.read_below hp (h.stored f hf), b.bytes?_of_mem hf hclass]
    · rw [classAt?, classDefinedBy?_of_isExtra hextra] at hclass
      cases hclass

/-- What is packaged where a path leads can be opened, and gives the classes of the bundle. -/
theorem Bundle.PackedAt.exists_gives {p : Path} (h : b.PackedAt d home p) (ht : d.IsTree) :
    ∃ s, Source.openAt d home p = .ok s ∧ s.Gives d home b := by
  have hopen : ∃ s, Source.openAt d home p = .ok s ∧
      ∀ name, s.read d home name = .ok (b.bytes? name) := by
    cases h with
    | @archive place content a hp hn ha h =>
      refine ⟨_, ?_, h.read⟩
      have hnamed : a.entries.any (·.name.isEmpty) = false := by
        rw [List.any_eq_false]
        intro e he hempty
        exact h.named e he (by simpa using hempty)
      simp only [Source.openAt, hp, hn, ha, Source.ofArchive, hnamed]
      rfl
    | @folder place hp hn h =>
      refine ⟨_, ?_, h.read ht hp⟩
      simp only [Source.openAt, hp, hn]
  obtain ⟨s, hs, hread⟩ := hopen
  refine ⟨s, hs, fun name => ?_, hread⟩
  have hcomplete := Source.isComplete_openAt hs
  constructor
  · intro hn
    by_contra hout
    have hbytes := hread name
    rw [Bundle.bytes?_eq_none_iff.mpr hout] at hbytes
    exact Source.read_of_mem hcomplete hn hbytes
  · intro hn
    by_contra hout
    have hbytes := hread name
    rw [Source.read_of_not_mem hout] at hbytes
    exact Bundle.bytes?_eq_none_iff.mp (Except.ok.inj hbytes).symm hn

end ApiSurface
