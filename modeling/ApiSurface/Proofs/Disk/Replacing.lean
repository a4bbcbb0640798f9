/-
ApiSurface.Proofs.Disk.Replacing — how the replacement of a file ends.

Once the folder of a file is made, two things on the disk decide whether the file can be
replaced: which of the numbered names for temporary files are free, and whether a folder is
where the file should go. Disks that agree on both give the same answer
(`AgreeBeside.fst_replaceFile`). The number of names that are tried depends on the size of
the disk, and it makes no difference: of more names than there are nodes, one is free or all
are taken, since the numbers start anew after eight digits (`freePlace_eq_temporaryPlace`).

So where a replacement has succeeded, it succeeds again on all disks that evolve from there
(`Evolves.replaceFile_again`). Where nothing but missing folders is put on the way to the
file, it ends as it does at the start (`Evolves.fst_replaceFile`).
-/
import ApiSurface.Proofs.Disk.Evolves
import Mathlib.Data.List.Perm.Subperm
import Mathlib.Data.Nat.ModEq

namespace ApiSurface

/-! ## 1. Names of temporary files -/

namespace Text.Hex

theorem digit_inj {m n : Nat} (hm : m < 16) (hn : n < 16) (h : digit m = digit n) : m = n := by
  have hall : ∀ a b : Fin 16, digit a = digit b → a = b := by decide
  exact congrArg Fin.val (hall ⟨m, hm⟩ ⟨n, hn⟩ h)

/-- Numbers have the same lowest digits exactly if they leave the same rest. -/
theorem padded_eq_iff {width m n : Nat} :
    padded width m = padded width n ↔ m % Nat.pow 16 width = n % Nat.pow 16 width := by
  induction width generalizing m n with
  | zero => simp [padded, Nat.mod_one]
  | succ width ih =>
    have hpow : Nat.pow 16 (width + 1) = 16 * Nat.pow 16 width := Nat.mul_comm _ _
    rw [padded, padded, hpow, Nat.mod_mul, Nat.mod_mul]
    constructor
    · intro h
      obtain ⟨hfront, hlast⟩ := List.append_inj' h rfl
      have hdigit := digit_inj (Nat.mod_lt m (by decide)) (Nat.mod_lt n (by decide))
        (List.singleton_inj.mp hlast)
      rw [hdigit, ih.mp hfront]
    · intro h
      have hm := Nat.mod_lt m (show 0 < 16 by decide)
      have hn := Nat.mod_lt n (show 0 < 16 by decide)
      have hdigit : m % 16 = n % 16 := by omega
      have hfront : padded width (m / 16) = padded width (n / 16) := ih.mpr (by omega)
      rw [hdigit, hfront]

end Text.Hex

@[simp] theorem Path.parent_child (base : Path) (name : String) : (base.child name).parent = base := by
  simp [parent, child]

@[simp] theorem Path.name_child (base : Path) (name : String) : (base.child name).name = name := by
  simp [Path.name, child]

namespace Disk

/-- The count of different names for temporary files. -/
def nameCount : Nat := Nat.pow 16 8

theorem temporaryName_eq_iff {name : String} {m n : Nat} :
    temporaryName name m = temporaryName name n ↔ m % nameCount = n % nameCount := by
  unfold temporaryName nameCount
  rw [String.append_left_inj, String.append_right_inj, String.ofList_inj, Text.Hex.padded_eq_iff]

theorem temporaryName_ne_dots (name : String) (n : Nat) : temporaryName name n ≠ ".." := by
  intro h
  have hlength := congrArg (fun name : String => name.toList.length) h
  simp [temporaryName, Text.Hex.length_padded] at hlength

/-! ## 2. Free names -/

variable {d d' : Disk} {home : Place} {base : Path} {name : String} {h : Host}

/-- The place of a temporary file in a folder. -/
def temporaryAt (folder : Place) (name : String) (n : Nat) : Place :=
  folder ++ [temporaryName name n]

theorem destination_temporary (n : Nat) :
    (base.child (temporaryName name n)).destination home = temporaryAt (base.destination home) name n :=
  Path.destination_child home base (temporaryName_ne_dots name n)

/-- A name for a temporary file is taken. -/
def IsTaken (d : Disk) (home : Place) (base : Path) (name : String) (n : Nat) : Prop :=
  ∃ place, d.locate home (base.child (temporaryName name n)) = .ok place ∧ (d.node? place).isSome

theorem freePlace_succ (n left : Nat) :
    d.freePlace home (base.child name) n (left + 1) =
      d.locate home (base.child (temporaryName name n)) >>= fun place =>
        if (d.node? place).isNone then .ok place
        else d.freePlace home (base.child name) (n + 1) left := by
  rw [freePlace, Path.parent_child, Path.name_child]

/-- Where all names are taken no place is free. -/
theorem freePlace_of_taken {n left : Nat} (h : ∀ i, d.IsTaken home base name i) :
    d.freePlace home (base.child name) n left = .error .alreadyThere := by
  induction left generalizing n with
  | zero => rfl
  | succ left ih =>
    obtain ⟨place, hl, hsome⟩ := h n
    rw [freePlace_succ, hl]
    simp only [bind, Except.bind]
    rw [if_neg (by simpa using Option.isSome_iff_ne_none.mp hsome), ih]

/-- An answer that does not come from running out of names stays when there are more. -/
theorem freePlace_add {n left : Nat} (more : Nat)
    (h : d.freePlace home (base.child name) n left ≠ .error .alreadyThere) :
    d.freePlace home (base.child name) n (left + more) =
      d.freePlace home (base.child name) n left := by
  induction left generalizing n with
  | zero => exact absurd rfl h
  | succ left ih =>
    rw [Nat.succ_add]
    rw [freePlace_succ] at h ⊢
    rw [freePlace_succ]
    refine bind_congr_ok rfl fun place hl => ?_
    rw [hl] at h
    simp only [bind, Except.bind] at h
    split_ifs at h ⊢
    · rfl
    · exact ih h

/-- One who runs out of names has found all of them taken. -/
theorem isTaken_of_freePlace (hfolder : d.isFolder home base = true) {n left : Nat}
    (h : d.freePlace home (base.child name) n left = .error .alreadyThere) :
    ∀ i, n ≤ i → i < n + left → d.IsTaken home base name i := by
  induction left generalizing n with
  | zero => exact fun i hle hlt => absurd hle (Nat.not_le.mpr hlt)
  | succ left ih =>
    rw [freePlace_succ] at h
    cases hl : d.locate home (base.child (temporaryName name n)) with
    | error why =>
      rw [hl] at h
      cases h
      rw [locate_child hfolder, enter] at hl
      split_ifs at hl <;> cases hl
    | ok place =>
      rw [hl] at h
      simp only [bind, Except.bind] at h
      split_ifs at h with hnone
      · intro i hle hlt
        rcases Nat.eq_or_lt_of_le hle with rfl | hlt'
        · exact ⟨place, hl, Option.isSome_iff_ne_none.mpr (by simpa using hnone)⟩
        · exact ih h i hlt' (by omega)

/-- If as many names are taken as the disk has nodes, and one more, then all are. -/
theorem isTaken_of_exhausted (h : ∀ i < d.nodes.length + 1, d.IsTaken home base name i) (n : Nat) :
    d.IsTaken home base name n := by
  have hplace : ∀ i < d.nodes.length + 1,
      temporaryAt (base.destination home) name i ∈ d.nodes.map (·.1) := by
    intro i hi
    obtain ⟨place, hl, hsome⟩ := h i hi
    rw [locate_eq_ok hl, destination_temporary] at hsome
    obtain ⟨node, hnode⟩ := Option.isSome_iff_exists.mp hsome
    rw [node?_of_ne (by simp [temporaryAt])] at hnode
    obtain ⟨before, behind, hnodes, -⟩ := List.lookup_eq_some_iff.mp hnode
    simp [hnodes]
  have hmany : nameCount ≤ d.nodes.length := by
    by_contra hfew
    rw [Nat.not_le] at hfew
    -- Different numbers give different names, so there are more places than nodes.
    have hnodup : ((List.range (d.nodes.length + 1)).map
        (temporaryAt (base.destination home) name)).Nodup := by
      refine List.Nodup.map_on (fun i hi j hj hij => ?_) List.nodup_range
      rw [List.mem_range] at hi hj
      have hname := List.singleton_inj.mp (List.append_cancel_left hij)
      rw [temporaryName_eq_iff, Nat.mod_eq_of_lt (by omega), Nat.mod_eq_of_lt (by omega)] at hname
      exact hname
    have hsub : (List.range (d.nodes.length + 1)).map
        (temporaryAt (base.destination home) name) ⊆ d.nodes.map (·.1) := by
      intro q hq
      obtain ⟨i, hi, rfl⟩ := List.mem_map.mp hq
      exact hplace i (List.mem_range.mp hi)
    have hlength := (List.subperm_of_subset hnodup hsub).length_le
    simp at hlength
  have hrest := h (n % nameCount)
    (Nat.lt_succ_of_le (Nat.le_trans (Nat.mod_lt n (by decide)).le hmany))
  have hname : temporaryName name (n % nameCount) = temporaryName name n :=
    temporaryName_eq_iff.mpr (Nat.mod_mod n nameCount)
  rwa [IsTaken, hname] at hrest

/-- Looking for more names than are tried makes no difference. -/
theorem freePlace_eq_temporaryPlace (hfolder : d.isFolder home base = true) {left : Nat}
    (hle : d.nodes.length + 1 ≤ left) :
    d.freePlace home (base.child name) 0 left = d.temporaryPlace home (base.child name) := by
  obtain ⟨more, rfl⟩ := Nat.exists_eq_add_of_le hle
  by_cases h : d.temporaryPlace home (base.child name) = .error .alreadyThere
  · have htaken := isTaken_of_exhausted fun i hi =>
      isTaken_of_freePlace hfolder h i (Nat.zero_le i) (by omega)
    rw [freePlace_of_taken htaken, h]
  · exact freePlace_add more h

/-! ## 3. What decides about a replacement -/

/-- A file that is replaced lies in a folder that could be made. -/
theorem makeFolders_of_replaceFile {content : Option ByteArray}
    (hok : (d.replaceFile h (base.child name) content).1 = .ok ()) :
    h.attempt .makeFolders (.ok ()) = .ok () ∧
      ∃ d₁, d.makeFolders h.home base.anchor base.parts = (.ok (), d₁) := by
  unfold replaceFile at hok
  rw [Path.parent_child] at hok
  split at hok
  · cases hok
  next hwilling =>
  refine ⟨hwilling, ?_⟩
  split at hok
  · cases hok
  · next d₁ heq => exact ⟨d₁, heq⟩

/-- Folders that are made first make no difference. -/
theorem replaceFile_of_makeFolders {d₁ : Disk} (hwilling : h.attempt .makeFolders (.ok ()) = .ok ())
    (hmake : d.makeFolders h.home base.anchor base.parts = (.ok (), d₁))
    (content : Option ByteArray) :
    d.replaceFile h (base.child name) content = d₁.replaceFile h (base.child name) content := by
  have hmake' : d₁.makeFolders h.home base.anchor base.parts = (.ok (), d₁) :=
    makeFolders_of_isFolder (isFolder_of_makeFolders hmake)
  have hanchor : (base.child name).anchor = base.anchor := rfl
  unfold replaceFile
  simp only [hwilling, Path.parent_child, hanchor, hmake, hmake']

/-- Two disks have the same free names beside a file, and both or none have a folder in the
place of the file. -/
structure AgreeBeside (d d' : Disk) (folder : Place) (name : String) : Prop where
  temporary : ∀ n, (d.node? (temporaryAt folder name n)).isNone =
    (d'.node? (temporaryAt folder name n)).isNone
  output : d.node? (Path.goOn folder name) = some .folder ↔
    d'.node? (Path.goOn folder name) = some .folder

namespace AgreeBeside

variable {folder : Place} {d'' : Disk}

theorem symm (h : AgreeBeside d d' folder name) : AgreeBeside d' d folder name :=
  ⟨fun n => (h.temporary n).symm, h.output.symm⟩

theorem trans (h : AgreeBeside d d' folder name) (h' : AgreeBeside d' d'' folder name) :
    AgreeBeside d d'' folder name :=
  ⟨fun n => (h.temporary n).trans (h'.temporary n), h.output.trans h'.output⟩

variable (ha : AgreeBeside d d' (base.destination home) name) (hd : d.isFolder home base = true)
  (hd' : d'.isFolder home base = true)
include ha hd hd'

theorem temporaryPlace :
    d.temporaryPlace home (base.child name) = d'.temporaryPlace home (base.child name) := by
  have hcongr : ∀ left n, d.freePlace home (base.child name) n left =
      d'.freePlace home (base.child name) n left := by
    intro left
    induction left with
    | zero => exact fun n => rfl
    | succ left ih =>
      intro n
      rw [freePlace_succ, freePlace_succ]
      refine bind_congr_ok ((locate_child hd _).trans (locate_child hd' _).symm) fun place hl => ?_
      rw [locate_eq_ok hl, destination_temporary, ha.temporary, ih]
  have hmore := hcongr (max (d.nodes.length + 1) (d'.nodes.length + 1)) 0
  rwa [freePlace_eq_temporaryPlace hd (Nat.le_max_left _ _),
    freePlace_eq_temporaryPlace hd' (Nat.le_max_right _ _)] at hmore

/-- Beside a temporary file the place of the file is the same on both disks, or refused. -/
theorem filePlace_put {temporary : Place} (hfree : d.node? temporary = none)
    (hfree' : d'.node? temporary = none) {bytes : ByteArray} :
    (d.put temporary (.file bytes)).filePlace home (base.child name) =
      (d'.put temporary (.file bytes)).filePlace home (base.child name) := by
  have hfolder : ∀ {d : Disk}, d.node? temporary = none → d.isFolder home base = true →
      (d.put temporary (.file bytes)).isFolder home base = true := by
    intro d hfree hd
    have hput : Preserves (· = temporary) d (d.put temporary (.file bytes)) :=
      preserves_put (by simp [hfree])
    rw [isFolder_iff, find_eq_ok_iff] at *
    exact ⟨hput.locate hd.1, hput.folder _ hd.2⟩
  refine bind_congr_ok ((locate_child (hfolder hfree hd) _).trans
    (locate_child (hfolder hfree' hd') _).symm) fun place hl => ?_
  have hplace : place = Path.goOn (base.destination home) name := by
    rw [locate_eq_ok hl, Path.destination, Path.child, List.foldl_append]
    rfl
  have hne : temporary ≠ [] := ne_nil_of_node? (d := d) (by simp [hfree])
  have hsame : (d.put temporary (.file bytes)).node? place = some .folder ↔
      (d'.put temporary (.file bytes)).node? place = some .folder := by
    rw [node?_put hne, node?_put hne, hplace]
    split_ifs
    · rfl
    · exact ha.output
  split
  · next hn => rw [hsame.mp hn]
  · next hn =>
    split
    · next hn' => exact absurd (hsame.mpr hn') (by simpa using hn)
    · rfl

/-- On disks that agree on what is beside a file, its replacement ends alike. -/
theorem fst_replaceFile {h : Host} (hhome : h.home = home) (content : Option ByteArray) :
    (d.replaceFile h (base.child name) content).1 = (d'.replaceFile h (base.child name) content).1 := by
  subst hhome
  have hfill : ∀ temporary, d.node? temporary = none → d'.node? temporary = none →
      ((d.put temporary (.file .empty)).fillAndRename h temporary (base.child name) content).1 =
        ((d'.put temporary (.file .empty)).fillAndRename h temporary (base.child name) content).1 := by
    intro temporary hfree hfree'
    unfold fillAndRename
    rw [ha.filePlace_put hd hd' hfree hfree']
    split
    · rfl
    · split
      · rfl
      · split <;> rfl
  unfold replaceFile
  have hmake : ∀ {d : Disk}, d.isFolder h.home base = true →
      d.makeFolders h.home (base.child name).anchor (base.child name).parent.parts = (.ok (), d) := by
    intro d hd
    rw [Path.parent_child]
    exact makeFolders_of_isFolder hd
  rw [hmake hd, hmake hd']
  split
  · rfl
  have hplace := ha.temporaryPlace hd hd'
  dsimp only
  rw [hplace]
  split
  · rfl
  next temporary htemporary =>
  have hfree' := attempt_eq_ok htemporary
  exact hfill temporary (freePlace_eq_ok (hplace.trans hfree')) (freePlace_eq_ok hfree')

end AgreeBeside

/-! ## 4. Replacing a file later -/

namespace Evolves

variable {changed made written : Place → Prop} (hev : Evolves changed made written d d')
include hev

/-- On a disk that evolves the names beside a file stay free or taken, unless something is
made or written there. -/
theorem agreeBeside {folder : Place} (hname : name ≠ "..")
    (hmade : ∀ part, made (folder ++ [part]) → (d.node? (folder ++ [part])).isSome)
    (hwritten : ∀ n, ¬ written (temporaryAt folder name n)) : AgreeBeside d d' folder name where
  temporary n := hev.isNone_eq (hmade _) (hwritten n)
  output := by
    rw [Path.goOn, if_neg hname]
    exact hev.folder_iff (hmade name)

end Evolves

theorem temporaryName_ne (name : String) (n : Nat) : temporaryName name n ≠ name := by
  intro h
  have hlength := congrArg (fun name : String => name.toList.length) h
  simp [temporaryName, Text.Hex.length_padded] at hlength
  omega

variable {changed made written : Place → Prop}

/-- A file that was replaced can be replaced again later, if the temporary files beside it are
not written meanwhile. -/
theorem Evolves.replaceFile_again {bytes : ByteArray} (hname : name ≠ "..")
    (hok : (d.replaceFile h (base.child name) (some bytes)).1 = .ok ())
    (hev : Evolves changed (base.OnTheWay h.home) written
      (d.replaceFile h (base.child name) (some bytes)).2 d')
    (hwritten : ∀ n, ¬ written (temporaryAt (base.destination h.home) name n)) :
    (d'.replaceFile h (base.child name) (some bytes)).1 = .ok () := by
  obtain ⟨hwilling, d₁, hmake⟩ := makeFolders_of_replaceFile hok
  have hfolder : d₁.isFolder h.home base = true := isFolder_of_makeFolders hmake
  rw [replaceFile_of_makeFolders hwilling hmake] at hok hev
  obtain ⟨-, -, hwrite⟩ := (d₁.evolves_replaceFile h (base.child name) bytes).resolve_left
    fun herror => by
      obtain ⟨why, hwhy, -⟩ := herror
      rw [hok] at hwhy
      cases hwhy
  rw [Path.parent_child, Path.destination_child _ _ hname] at hwrite
  have hall : Evolves (fun q => q = base.destination h.home ++ [name] ∨ changed q)
      (base.OnTheWay h.home) (fun q => q = base.destination h.home ++ [name] ∨ written q) d₁ d' :=
    (hwrite.mono (fun _ => .inl) (fun _ => id) fun _ => .inl).trans
      (hev.mono (fun _ => .inr) (fun _ => id) fun _ => .inr)
  have hagree : AgreeBeside d₁ d' (base.destination h.home) name := by
    refine hall.agreeBeside hname (fun part hpart => ?_) fun n => ?_
    · rw [isFolder_onTheWay hfolder hpart, Option.isSome_some]
    · rintro (hsame | hw)
      · exact temporaryName_ne name n (List.singleton_inj.mp (List.append_cancel_left hsame))
      · exact hwritten n hw
  rw [← hagree.fst_replaceFile hfolder (hall.isFolder hfolder) rfl, hok]

/-- The replacement of a file ends as it does at the start, if meanwhile nothing is put on the
way to it but folders that are missing, and nothing in its folder but other files. -/
theorem Evolves.fst_replaceFile (hev : Evolves changed (base.OnTheWay h.home) written d d')
    (hname : name ≠ "..") (hnull : ¬ base.hasNull = true)
    (hmissing : ∀ front back, front <+: back → back <+: base.parts →
      d.node? (Path.destination h.home ⟨base.anchor, front⟩) = none →
      d.node? (Path.destination h.home ⟨base.anchor, back⟩) = none)
    (hmade : ∀ part, base.OnTheWay h.home (base.destination h.home ++ [part]) →
      (d.node? (base.destination h.home ++ [part])).isSome)
    (hwritten : ∀ q, written q → ∃ part, q = base.destination h.home ++ [part] ∧
      ∀ n, part ≠ temporaryName name n) (content : Option ByteArray) :
    (d'.replaceFile h (base.child name) content).1 =
      (d.replaceFile h (base.child name) content).1 := by
  have hfst : (d'.makeFolders h.home base.anchor base.parts).1 =
      (d.makeFolders h.home base.anchor base.parts).1 := by
    refine hev.fst_makeFolders hnull hmissing fun q hq hnone hw => ?_
    obtain ⟨part, rfl, -⟩ := hwritten q hw
    have hsome := hmade part hq
    rw [hnone] at hsome
    cases hsome
  have hanchor : (base.child name).anchor = base.anchor := rfl
  cases hwilling : h.attempt .makeFolders (.ok ()) with
  | error why => simp only [replaceFile, hwilling]
  | ok =>
  obtain ⟨result, d₁, hmake⟩ : ∃ result d₁, d.makeFolders h.home base.anchor base.parts =
      (result, d₁) := ⟨_, _, rfl⟩
  obtain ⟨result', d₁', hmake'⟩ : ∃ result d₁, d'.makeFolders h.home base.anchor base.parts =
      (result, d₁) := ⟨_, _, rfl⟩
  rw [hmake, hmake'] at hfst
  obtain rfl : result' = result := hfst
  cases result' with
  | error why => simp only [replaceFile, hwilling, Path.parent_child, hanchor, hmake, hmake']
  | ok =>
  have hfirst := evolves_makeFolders d h.home base.anchor base.parts
  have hlater := evolves_makeFolders d' h.home base.anchor base.parts
  rw [hmake] at hfirst
  rw [hmake'] at hlater
  have hagree : AgreeBeside d d' (base.destination h.home) name :=
    hev.agreeBeside hname hmade fun n hw => by
      obtain ⟨part, hq, hpart⟩ := hwritten _ hw
      exact hpart n (List.singleton_inj.mp (List.append_cancel_left hq)).symm
  have hagree₁ : AgreeBeside d d₁ (base.destination h.home) name :=
    hfirst.agreeBeside hname hmade fun _ => id
  have hagree₁' : AgreeBeside d' d₁' (base.destination h.home) name :=
    hlater.agreeBeside hname (fun part hpart => hev.isSome (hmade part hpart)) fun _ => id
  rw [replaceFile_of_makeFolders hwilling hmake, replaceFile_of_makeFolders hwilling hmake']
  exact ((hagree₁'.symm.trans hagree.symm).trans hagree₁).fst_replaceFile
    (isFolder_of_makeFolders hmake') (isFolder_of_makeFolders hmake) rfl content

end Disk

end ApiSurface
