/-
ApiSurface.Proofs.Disk.Evolves — disks on which files are replaced.

`Evolves changed made written d d'` bounds what happens between two disks while records are
logged and files are replaced: nothing goes away, files get new contents at the places
`changed` only, and what is new is a folder at one of the places `made` or a file at one of
the places `written`. It bounds a step and a whole run alike (`Evolves.trans`).

So whatever can be followed leads to the same place afterwards, and a path that stops stops
for the same cause, unless it stops where nothing is (`Evolves.locate_eq_error`). Where
nothing is missing before what is there, making folders ends alike on both disks
(`Evolves.fst_makeFolders`).
-/
import ApiSurface.Proofs.Disk.Ways

namespace ApiSurface.Disk

section

variable {d d' : Disk} {place : Place} {node : Node}

theorem HasDistinctPlaces.put (h : d.HasDistinctPlaces) : (d.put place node).HasDistinctPlaces := by
  unfold HasDistinctPlaces Disk.put at *
  split_ifs with hany
  · have hsame : (d.nodes.map fun entry => if entry.1 == place then (place, node) else entry).map
        (·.1) = d.nodes.map (·.1) := by
      rw [List.map_map]
      refine List.map_congr_left fun entry _ => ?_
      by_cases hkey : entry.1 = place <;> simp [hkey]
    rwa [hsame]
  · rw [List.map_append, List.map_singleton, List.nodup_append_comm, List.singleton_append,
      List.nodup_cons]
    refine ⟨fun hmem => hany ?_, h⟩
    obtain ⟨entry, hentry, hkey⟩ := List.mem_map.mp hmem
    exact List.any_eq_true.mpr ⟨entry, hentry, beq_iff_eq.mpr hkey⟩

theorem HasDistinctPlaces.remove (h : d.HasDistinctPlaces) : (d.remove place).HasDistinctPlaces :=
  h.sublist (List.filter_sublist.map _)

theorem HasDistinctPlaces.append {bytes : ByteArray} (h : d.HasDistinctPlaces) :
    (d.append place bytes).HasDistinctPlaces := by
  unfold Disk.append
  split
  · exact h.put
  · exact h

theorem HasDistinctPlaces.makeFolders (h : d.HasDistinctPlaces) (home : Place) (anchor : Anchor)
    (parts : List String) : (d.makeFolders home anchor parts).2.HasDistinctPlaces := by
  refine makeFolders_rel (R := fun d d' => d.HasDistinctPlaces → d'.HasDistinctPlaces)
    (fun _ => id) (fun _ _ _ h h' => h' ∘ h) (fun d d' begun _ hmake h => ?_) d h
  obtain ⟨-, -, rfl⟩ := makeFolder_eq_ok.mp hmake
  exact h.put

theorem HasDistinctPlaces.fillAndRename (hd : d.HasDistinctPlaces) (h : Host) (temporary : Place)
    (p : Path) (content : Option ByteArray) :
    (d.fillAndRename h temporary p content).2.HasDistinctPlaces := by
  unfold Disk.fillAndRename
  cases content with
  | none => exact hd.remove
  | some bytes =>
    dsimp only
    split
    · exact hd.remove
    split
    · exact hd.remove
    · exact hd.remove.put

theorem HasDistinctPlaces.replaceFile (hd : d.HasDistinctPlaces) (h : Host) (p : Path)
    (content : Option ByteArray) : (d.replaceFile h p content).2.HasDistinctPlaces := by
  unfold Disk.replaceFile
  split
  · exact hd
  have hfolders := hd.makeFolders h.home p.anchor p.parent.parts
  split
  · next heq =>
    rw [heq] at hfolders
    exact hfolders
  next heq =>
  rw [heq] at hfolders
  split
  · exact hfolders
  · exact hfolders.put.fillAndRename h _ p content

end

/-- From one disk to another nothing goes away; files change at some places only, and what is
new are folders at some places and files at others. -/
structure Evolves (changed made written : Place → Prop) (d d' : Disk) : Prop where
  folder : ∀ q, d.node? q = some .folder → d'.node? q = some .folder
  file : ∀ q bytes, d.node? q = some (.file bytes) →
    ∃ bytes', d'.node? q = some (.file bytes') ∧ (¬ changed q → bytes' = bytes)
  fresh : ∀ q node, d.node? q = none → d'.node? q = some node →
    node = .folder ∧ made q ∨ (∃ bytes, node = .file bytes) ∧ written q
  distinct : d.HasDistinctPlaces → d'.HasDistinctPlaces

namespace Evolves

variable {changed made written : Place → Prop} {d d' d'' : Disk} {home place q : Place} {p : Path}
  {why : Trouble}

theorem refl (d : Disk) : Evolves changed made written d d where
  folder _ h := h
  file _ bytes h := ⟨bytes, h, fun _ => rfl⟩
  fresh q node h h' := by
    rw [h] at h'
    cases h'
  distinct := id

theorem trans (h : Evolves changed made written d d') (h' : Evolves changed made written d' d'') :
    Evolves changed made written d d'' where
  folder q hq := h'.folder q (h.folder q hq)
  file q bytes hq := by
    obtain ⟨bytes', hq', hsame⟩ := h.file q bytes hq
    obtain ⟨bytes'', hq'', hsame'⟩ := h'.file q bytes' hq'
    exact ⟨bytes'', hq'', fun hc => (hsame' hc).trans (hsame hc)⟩
  fresh q node hq hq'' := by
    cases hq' : d'.node? q with
    | none => exact h'.fresh q node hq' hq''
    | some middle =>
      rcases h.fresh q middle hq hq' with ⟨rfl, hm⟩ | ⟨⟨bytes, rfl⟩, hw⟩
      · rw [h'.folder q hq', Option.some_inj] at hq''
        exact .inl ⟨hq''.symm, hm⟩
      · obtain ⟨bytes', hfile, -⟩ := h'.file q bytes hq'
        rw [hfile, Option.some_inj] at hq''
        exact .inr ⟨⟨bytes', hq''.symm⟩, hw⟩
  distinct := h'.distinct ∘ h.distinct

theorem mono {changed' made' written' : Place → Prop} (h : Evolves changed made written d d')
    (hc : ∀ q, changed q → changed' q) (hm : ∀ q, made q → made' q)
    (hw : ∀ q, written q → written' q) : Evolves changed' made' written' d d' where
  folder := h.folder
  file q bytes hq := by
    obtain ⟨bytes', hq', hsame⟩ := h.file q bytes hq
    exact ⟨bytes', hq', fun hq => hsame fun h => hq (hc q h)⟩
  fresh q node hq hq' := (h.fresh q node hq hq').imp (.imp_right (hm q)) (.imp_right (hw q))
  distinct := h.distinct

theorem preserves (h : Evolves changed made written d d') : Preserves changed d d' where
  folder := h.folder
  file q bytes hc hq := by
    obtain ⟨bytes', hq', hsame⟩ := h.file q bytes hq
    rw [hq', hsame hc]

/-! ## 1. Operations -/

/-- Where nothing is written, a disk evolves as it grows. -/
theorem of_grows {logged : Place → Prop} (h : Grows logged made nowhere d d')
    (hd : d.HasDistinctPlaces → d'.HasDistinctPlaces) : Evolves logged made nowhere d d' where
  folder q hq := by
    rcases h.kept q _ id hq with hq' | ⟨-, _, _, heq, -⟩
    · exact hq'
    · cases heq
  file q bytes hq := by
    rcases h.kept q _ id hq with hq' | ⟨hlogged, _, _, -, hq'⟩
    · exact ⟨bytes, hq', fun _ => rfl⟩
    · exact ⟨_, hq', fun hc => absurd hlogged hc⟩
  fresh q node hq hq' := .inl (h.fresh q node id hq hq')
  distinct := hd

/-- Where one file is written, a disk evolves as it grows at all other places. -/
theorem of_written {bytes : ByteArray} (h : Grows nowhere made (· = place) d d')
    (hfile : d'.node? place = some (.file bytes)) (hp : Preserves (· = place) d d')
    (hd : d.HasDistinctPlaces → d'.HasDistinctPlaces) :
    Evolves (· = place) made (· = place) d d' where
  folder := hp.folder
  file q old hq := by
    by_cases hplace : q = place
    · exact ⟨bytes, by rw [hplace, hfile], fun hc => absurd hplace hc⟩
    · exact ⟨old, hp.file q old hplace hq, fun _ => rfl⟩
  fresh q node hq hq' := by
    by_cases hplace : q = place
    · rw [hplace, hfile, Option.some_inj] at hq'
      exact .inr ⟨⟨bytes, hq'.symm⟩, hplace⟩
    · exact .inl (h.fresh q node hplace hq hq')
  distinct := hd

end Evolves

variable {changed made written : Place → Prop} {d d' : Disk} {home place q : Place} {p : Path}
  {why : Trouble}

theorem evolves_makeFolders (d : Disk) (home : Place) (anchor : Anchor) (parts : List String) :
    Evolves nowhere (Path.OnTheWay home ⟨anchor, parts⟩) nowhere d
      (d.makeFolders home anchor parts).2 :=
  .of_grows (grows_makeFolders d home anchor parts) fun h => h.makeFolders home anchor parts

/-- Replacing a file makes folders on the way to it, and writes the file if it succeeds. -/
theorem evolves_replaceFile (d : Disk) (h : Host) (p : Path) (bytes : ByteArray) :
    (∃ why, (d.replaceFile h p (some bytes)).1 = .error why ∧
      Evolves nowhere (p.parent.OnTheWay h.home) nowhere d (d.replaceFile h p (some bytes)).2) ∨
    ((d.replaceFile h p (some bytes)).1 = .ok () ∧
      (d.replaceFile h p (some bytes)).2.HasFile h.home p bytes ∧
      Evolves (· = p.destination h.home) (p.parent.OnTheWay h.home) (· = p.destination h.home) d
        (d.replaceFile h p (some bytes)).2) := by
  have hdistinct : d.HasDistinctPlaces → (d.replaceFile h p (some bytes)).2.HasDistinctPlaces :=
    fun hd => hd.replaceFile h p _
  rcases d.replaceFile_grows h p (some bytes) with ⟨⟨why, hwhy⟩, hgrows⟩ | ⟨hok, -, hgrows⟩
  · exact .inl ⟨why, hwhy, .of_grows hgrows hdistinct⟩
  · obtain ⟨-, hfile, hpreserves⟩ := (d.replaceFile_cases h p bytes).resolve_left fun herror => by
      obtain ⟨why, hwhy, -⟩ := herror
      rw [hok] at hwhy
      cases hwhy
    exact .inr ⟨hok, hfile, .of_written hgrows hfile.node hpreserves hdistinct⟩

/-! ## 2. Paths -/

namespace Evolves

variable (h : Evolves changed made written d d')
include h

theorem isSome (hq : (d.node? q).isSome) : (d'.node? q).isSome := by
  obtain ⟨node, hn⟩ := Option.isSome_iff_exists.mp hq
  cases node with
  | folder => rw [h.folder q hn, Option.isSome_some]
  | file bytes =>
    obtain ⟨bytes', hn', -⟩ := h.file q bytes hn
    rw [hn', Option.isSome_some]

/-- Where no file is written there is a file if there was one. -/
theorem file_iff (hw : ¬ written q) : (∃ bytes, d.node? q = some (.file bytes)) ↔
    ∃ bytes, d'.node? q = some (.file bytes) := by
  constructor
  · rintro ⟨bytes, hn⟩
    obtain ⟨bytes', hn', -⟩ := h.file q bytes hn
    exact ⟨bytes', hn'⟩
  · rintro ⟨bytes, hn'⟩
    cases hn : d.node? q with
    | none =>
      rcases h.fresh q _ hn hn' with ⟨hfolder, -⟩ | ⟨-, hwritten⟩
      · cases hfolder
      · exact absurd hwritten hw
    | some node =>
      cases node with
      | file bytes => exact ⟨bytes, rfl⟩
      | folder =>
        rw [h.folder q hn] at hn'
        cases hn'

/-- Where nothing is put there is nothing, or there was something. -/
theorem isNone_eq (hm : made q → (d.node? q).isSome) (hw : ¬ written q) :
    (d.node? q).isNone = (d'.node? q).isNone := by
  cases hn : d.node? q with
  | none =>
    cases hn' : d'.node? q with
    | none => rfl
    | some node =>
      rcases h.fresh q node hn hn' with ⟨-, hmade⟩ | ⟨-, hwritten⟩
      · have hsome := hm hmade
        rw [hn] at hsome
        cases hsome
      · exact absurd hwritten hw
  | some node =>
    obtain ⟨node', hn'⟩ := Option.isSome_iff_exists.mp (h.isSome (q := q) (by rw [hn, Option.isSome_some]))
    rw [hn', Option.isNone_some, Option.isNone_some]

/-- Where no folder is made there is a folder if there was one. -/
theorem folder_iff (hm : made q → (d.node? q).isSome) :
    d.node? q = some .folder ↔ d'.node? q = some .folder := by
  refine ⟨h.folder q, fun hn' => ?_⟩
  cases hn : d.node? q with
  | none =>
    rcases h.fresh q _ hn hn' with ⟨-, hmade⟩ | ⟨⟨bytes, hfile⟩, -⟩
    · have hsome := hm hmade
      rw [hn] at hsome
      cases hsome
    · cases hfile
  | some node =>
    cases node with
    | folder => rfl
    | file bytes =>
      obtain ⟨bytes', hfile, -⟩ := h.file q bytes hn
      rw [hfile] at hn'
      cases hn'

theorem isFolder (hp : d.isFolder home p = true) : d'.isFolder home p = true := by
  rw [isFolder_iff, find_eq_ok_iff] at *
  exact ⟨h.preserves.locate hp.1, h.folder _ hp.2⟩

/-- A path that stops at a folder or at a file stops there for the same cause. -/
theorem stops {part : String} (hs : d.Stops place part why) (hne : why ≠ .missing) :
    d'.Stops place part why := by
  cases hs with
  | missing => exact absurd rfl hne
  | notFolder hn =>
    obtain ⟨bytes, hn', -⟩ := h.file _ _ hn
    exact .notFolder hn'
  | nameTooLong hn hdots hlong => exact .nameTooLong (h.folder _ hn) hdots hlong

theorem locate_eq_error (hl : d.locate home p = .error why) (hne : why ≠ .missing) :
    d'.locate home p = .error why := by
  by_cases hnull : p.hasNull = true
  · rw [Disk.locate, if_pos hnull] at hl ⊢
    exact hl
  · rw [locate_eq_follow hnull] at hl ⊢
    obtain ⟨front, part, back, hparts, hfront, hstops⟩ := follow_eq_error_iff.mp hl
    exact follow_eq_error_iff.mpr
      ⟨front, part, back, hparts, h.preserves.follow hfront, h.stops hstops hne⟩

/-- Making folders ends alike on both disks where a file stands on the way, if nothing is missing
before what is there. -/
theorem fst_makeFolders_of_file {anchor : Anchor} {parts begun : List String} {bytes : ByteArray}
    (hnull : ¬ (⟨anchor, parts⟩ : Path).hasNull = true)
    (hmissing : ∀ front back, front <+: back → back <+: parts →
      d.node? (Path.destination home ⟨anchor, front⟩) = none →
      d.node? (Path.destination home ⟨anchor, back⟩) = none)
    (hbegun : begun <+: parts)
    (hn : d.node? (Path.destination home ⟨anchor, begun⟩) = some (.file bytes)) :
    (d'.makeFolders home anchor parts).1 = (d.makeFolders home anchor parts).1 := by
  cases hl : d.locate home ⟨anchor, parts⟩ with
  | ok place =>
    obtain rfl := locate_eq_ok hl
    obtain rfl := eq_of_locate_of_file hbegun hn hl
    obtain ⟨bytes', hn', -⟩ := h.file _ _ hn
    rw [makeFolders_of_file hl hn, makeFolders_of_file (h.preserves.locate hl) hn']
  | error why =>
    have hne : why ≠ .missing := by
      rintro rfl
      exact locate_ne_missing hbegun hn hnull (fun front hle => hmissing front begun hle hbegun) hl
    rw [makeFolders_of_error hl hne, makeFolders_of_error (h.locate_eq_error hl hne) hne]

/-- Making folders ends alike on both disks, if on the way to them nothing is missing before
what is there, and what is new on the way is no file. -/
theorem fst_makeFolders {anchor : Anchor} {parts : List String}
    (hnull : ¬ (⟨anchor, parts⟩ : Path).hasNull = true)
    (hmissing : ∀ front back, front <+: back → back <+: parts →
      d.node? (Path.destination home ⟨anchor, front⟩) = none →
      d.node? (Path.destination home ⟨anchor, back⟩) = none)
    (hwritten : ∀ q, Path.OnTheWay home ⟨anchor, parts⟩ q → d.node? q = none → ¬ written q) :
    (d'.makeFolders home anchor parts).1 = (d.makeFolders home anchor parts).1 := by
  by_cases hfile : ∃ q bytes, Path.OnTheWay home ⟨anchor, parts⟩ q ∧ d.node? q = some (.file bytes)
  · obtain ⟨_, bytes, ⟨begun, hbegun, rfl⟩, hn⟩ := hfile
    exact h.fst_makeFolders_of_file hnull hmissing hbegun hn
  · push Not at hfile
    have hfile' : ∀ q, Path.OnTheWay home ⟨anchor, parts⟩ q →
        ∀ bytes, d'.node? q ≠ some (.file bytes) := by
      intro q hq bytes hn
      cases hq' : d.node? q with
      | none =>
        rcases h.fresh q _ hq' hn with ⟨hfolder, -⟩ | ⟨-, hw⟩
        · cases hfolder
        · exact hwritten q hq hq' hw
      | some node =>
        cases node with
        | file bytes => exact hfile q bytes hq hq'
        | folder =>
          rw [h.folder q hq'] at hn
          cases hn
    rw [fst_makeFolders_of_no_file hnull hfile', fst_makeFolders_of_no_file hnull
      fun q hq bytes => hfile q bytes hq]

end Evolves

end ApiSurface.Disk
