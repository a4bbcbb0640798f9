/-
ApiSurface.Proofs.Disk.Ways — ways to a place, and how they are made.

A path is followed up to its end, or up to the first place from which it does not go on
(`follow_eq_error_iff`): there is nothing at this place, or a file, or the next name is too
long. Once a path means a folder, all on the way to it are folders, and one more name leads
to the place of this name or is refused (`isFolder_onTheWay`, `locate_child`).

If the folders of a path can be made, the path means a folder afterwards, and making them
again changes nothing. Where no file stands on the way, they can be made if no name is too
long (`fst_makeFolders_of_no_file`).
-/
import ApiSurface.Proofs.Disk.Grows
import ApiSurface.Proofs.Disk.Tree

namespace ApiSurface

namespace Disk

variable {d d' : Disk} {home place q : Place} {p : Path} {part : String} {parts : List String}
  {why : Trouble}

/-! ## 1. Following a path -/

/-- Why a path does not go on from a place with a name. -/
inductive Stops (d : Disk) (place : Place) (part : String) : Trouble → Prop where
  | missing : d.node? place = none → Stops d place part .missing
  | notFolder {bytes : ByteArray} : d.node? place = some (.file bytes) → Stops d place part .notFolder
  | nameTooLong : d.node? place = some .folder → part ≠ ".." → maxNameSize < part.utf8ByteSize →
      Stops d place part .nameTooLong

theorem follow_of_stops (h : d.Stops place part why) (rest : List String) :
    d.follow place (part :: rest) = .error why := by
  cases h with
  | missing hn => rw [follow, hn]
  | notFolder hn => rw [follow, hn]
  | nameTooLong hn hdots hlong =>
    rw [follow, hn]
    dsimp only
    rw [if_neg hdots, if_pos hlong]

/-- One part of a path is followed in a folder. -/
theorem follow_goOn (hn : d.node? place = some .folder)
    (hshort : part = ".." ∨ part.utf8ByteSize ≤ maxNameSize) (rest : List String) :
    d.follow place (part :: rest) = d.follow (Path.goOn place part) rest := by
  rw [follow, hn, Path.goOn]
  dsimp only
  split_ifs with hdots hlong
  · rfl
  · exact absurd hlong (Nat.not_lt.mpr (hshort.resolve_left hdots))
  · rfl

/-- From a place a path stops, or goes on into a folder. -/
theorem stops_or_goesOn (d : Disk) (place : Place) (part : String) :
    (∃ why, d.Stops place part why) ∨
      d.node? place = some .folder ∧ (part = ".." ∨ part.utf8ByteSize ≤ maxNameSize) := by
  cases hn : d.node? place with
  | none => exact .inl ⟨_, .missing hn⟩
  | some node =>
    cases node with
    | file => exact .inl ⟨_, .notFolder hn⟩
    | folder =>
      by_cases hshort : part = ".." ∨ part.utf8ByteSize ≤ maxNameSize
      · exact .inr ⟨rfl, hshort⟩
      · push Not at hshort
        exact .inl ⟨_, .nameTooLong hn hshort.1 hshort.2⟩

/-- A path that cannot be followed stops at a place that it reaches. -/
theorem follow_eq_error_iff : d.follow place parts = .error why ↔
    ∃ front part back, parts = front ++ part :: back ∧
      d.follow place front = .ok (front.foldl Path.goOn place) ∧
      d.Stops (front.foldl Path.goOn place) part why := by
  constructor
  · intro h
    induction parts generalizing place with
    | nil => cases h
    | cons part rest ih =>
      rcases d.stops_or_goesOn place part with ⟨cause, hstops⟩ | ⟨hn, hshort⟩
      · rw [follow_of_stops hstops] at h
        cases h
        exact ⟨[], part, rest, rfl, rfl, hstops⟩
      · rw [follow_goOn hn hshort] at h
        obtain ⟨front, stop, back, rfl, hfront, hstops⟩ := ih h
        exact ⟨part :: front, stop, back, rfl, by rw [follow_goOn hn hshort, hfront]; rfl, hstops⟩
  · rintro ⟨front, part, back, rfl, hfront, hstops⟩
    rw [follow_append hfront, follow_of_stops hstops]

/-- If a path can be followed, so can its beginnings, and what lies behind each of them is
followed from there. -/
theorem follow_append_eq_ok {front back : List String} :
    d.follow place (front ++ back) = .ok q ↔
      d.follow place front = .ok (front.foldl Path.goOn place) ∧
        d.follow (front.foldl Path.goOn place) back = .ok q := by
  constructor
  · intro h
    have hfront : d.follow place front = .ok (front.foldl Path.goOn place) := by
      cases hfront : d.follow place front with
      | ok m => rw [follow_eq_ok hfront]
      | error why =>
        obtain ⟨before, part, behind, rfl, hbefore, hstops⟩ := follow_eq_error_iff.mp hfront
        rw [List.append_assoc, follow_append hbefore, List.cons_append, follow_of_stops hstops] at h
        cases h
    exact ⟨hfront, by rw [← follow_append hfront, h]⟩
  · rintro ⟨hfront, hback⟩
    rw [follow_append hfront, hback]

/-- A path goes on from folders only, and not with names that are too long. -/
theorem follow_cons_eq_ok {rest : List String} (h : d.follow place (part :: rest) = .ok q) :
    d.node? place = some .folder ∧ (part = ".." ∨ part.utf8ByteSize ≤ maxNameSize) := by
  refine (d.stops_or_goesOn place part).resolve_left ?_
  rintro ⟨why, hstops⟩
  rw [follow_of_stops hstops] at h
  cases h

/-- All on the way of a path that can be followed are folders, up to its end. -/
theorem folder_of_follow (h : d.follow place parts = .ok q) {front : List String}
    (hfront : front <+: parts) (hne : front ≠ parts) :
    d.node? (front.foldl Path.goOn place) = some .folder := by
  obtain ⟨back, rfl⟩ := hfront
  cases back with
  | nil => exact absurd (List.append_nil front).symm hne
  | cons part back => exact (follow_cons_eq_ok (follow_append_eq_ok.mp h).2).1

/-- A path that can be followed has no names that are too long. -/
theorem size_le_of_follow (h : d.follow place parts = .ok q) :
    ∀ part ∈ parts, part.utf8ByteSize ≤ maxNameSize := by
  intro part hpart
  obtain ⟨front, back, rfl⟩ := List.append_of_mem hpart
  rcases (follow_cons_eq_ok (follow_append_eq_ok.mp h).2).2 with rfl | hshort
  · decide
  · exact hshort

/-! ## 2. Paths to folders -/

theorem find_eq_ok_iff {node : Node} : d.find home p = .ok node ↔
    d.locate home p = .ok (p.destination home) ∧ d.node? (p.destination home) = some node := by
  rw [find, bind_eq_ok]
  constructor
  · rintro ⟨place, hl, h⟩
    obtain rfl := locate_eq_ok hl
    split at h
    · next hn =>
      cases h
      exact ⟨hl, hn⟩
    · cases h
  · rintro ⟨hl, hn⟩
    exact ⟨_, hl, by rw [hn]⟩

/-- A path means nothing if it cannot be followed, or if there is nothing at its end. -/
theorem find_eq_error_iff : d.find home p = .error why ↔
    d.locate home p = .error why ∨
      d.locate home p = .ok (p.destination home) ∧ d.node? (p.destination home) = none ∧
        why = .missing := by
  unfold find
  cases hl : d.locate home p with
  | error cause => simp [bind, Except.bind]
  | ok place =>
    obtain rfl := locate_eq_ok hl
    cases hn : d.node? (p.destination home) with
    | none => simp [bind, Except.bind, hn, eq_comm]
    | some node => simp [bind, Except.bind, hn]

theorem isFolder_iff : d.isFolder home p = true ↔ d.find home p = .ok .folder := by
  unfold isFolder
  split <;> simp_all

theorem not_isFolder_of_error (hl : d.locate home p = .error why) :
    ¬ d.isFolder home p = true := by
  intro hfolder
  rw [(find_eq_ok_iff.mp (isFolder_iff.mp hfolder)).1] at hl
  cases hl

theorem not_isFolder_of_file {bytes : ByteArray} (hl : d.locate home p = .ok place)
    (hn : d.node? place = some (.file bytes)) : ¬ d.isFolder home p = true := by
  intro hfolder
  obtain rfl := locate_eq_ok hl
  rw [(find_eq_ok_iff.mp (isFolder_iff.mp hfolder)).2] at hn
  cases hn

theorem locate_eq_follow (hnull : ¬ p.hasNull = true) :
    d.locate home p = d.follow (if p.isAbsolute then [] else home) p.parts := by
  rw [locate, if_neg hnull]

theorem hasNull_of_locate (h : d.locate home p = .ok place) : ¬ p.hasNull = true := by
  intro hnull
  rw [locate, if_pos hnull] at h
  cases h

/-- All on the way to a folder are folders. -/
theorem isFolder_onTheWay (h : d.isFolder home p = true) (hq : p.OnTheWay home q) :
    d.node? q = some .folder := by
  obtain ⟨front, hfront, rfl⟩ := hq
  obtain ⟨hl, hn⟩ := find_eq_ok_iff.mp (isFolder_iff.mp h)
  by_cases heq : front = p.parts
  · rw [heq]
    exact hn
  · rw [locate_eq_follow (hasNull_of_locate hl)] at hl
    exact folder_of_follow hl hfront heq

/-- The place to which one more name leads from a folder. -/
def enter (place : Place) (name : String) : Except Trouble Place :=
  if name.toList.contains (Char.ofNat 0) then .error .nullInPath
  else if name ≠ ".." ∧ maxNameSize < name.utf8ByteSize then .error .nameTooLong
  else .ok (Path.goOn place name)

theorem locate_child (h : d.isFolder home p = true) (name : String) :
    d.locate home (p.child name) = enter (p.destination home) name := by
  obtain ⟨hl, hn⟩ := find_eq_ok_iff.mp (isFolder_iff.mp h)
  have hnull := hasNull_of_locate hl
  rw [locate_eq_follow hnull] at hl
  have hchild : (p.child name).hasNull = name.toList.contains (Char.ofNat 0) := by
    unfold Path.hasNull at hnull ⊢
    rw [Path.child, List.any_append, List.any_cons, List.any_nil, Bool.or_false,
      (Bool.not_eq_true _).mp hnull, Bool.false_or]
  have hfollow : d.follow (if p.isAbsolute then [] else home) (p.parts ++ [name]) =
      d.follow (p.destination home) [name] := follow_append hl [name]
  unfold locate enter
  rw [hchild]
  by_cases hzero : name.toList.contains (Char.ofNat 0) = true
  · rw [if_pos hzero, if_pos hzero]
  rw [if_neg hzero, if_neg hzero]
  refine hfollow.trans ?_
  split_ifs with hlong
  · exact follow_of_stops (.nameTooLong hn hlong.1 hlong.2) []
  · rw [not_and, Nat.not_lt] at hlong
    exact follow_goOn hn (or_iff_not_imp_left.mpr hlong) []

/-! ## 3. Making folders -/

theorem makeFolder_of_some {node : Node} (hl : d.locate home p = .ok place)
    (hn : d.node? place = some node) : d.makeFolder home p = .error .alreadyThere := by
  rw [makeFolder, hl]
  simp only [bind, Except.bind, hn]

theorem makeFolder_of_error (hl : d.locate home p = .error why) :
    d.makeFolder home p = .error why := by
  rw [makeFolder, hl]
  rfl

/-- Folders that are there need not be made. -/
theorem makeFolders_of_isFolder (h : d.isFolder home p = true) :
    d.makeFolders home p.anchor p.parts = (.ok (), d) := by
  obtain ⟨hl, hn⟩ := find_eq_ok_iff.mp (isFolder_iff.mp h)
  rw [makeFolders, makeFolder_of_some hl hn]
  exact if_pos h

theorem isFolder_of_makeFolder (h : d.makeFolder home p = .ok d') : d'.isFolder home p = true := by
  have hspares := spares_makeFolder h
  obtain ⟨hl, hnone, rfl⟩ := makeFolder_eq_ok.mp h
  have hne : p.destination home ≠ [] := ne_nil_of_node? (d := d) (by simp [hnone])
  exact isFolder_iff.mpr (find_eq_ok_iff.mpr ⟨hspares.locate hl, by rw [node?_put hne, if_pos rfl]⟩)

theorem isFolder_of_ensureFolder (h : d.ensureFolder home p = .ok d') :
    d'.isFolder home p = true := by
  unfold ensureFolder at h
  split at h
  · next hmake =>
    cases h
    exact isFolder_of_makeFolder hmake
  · split_ifs at h with hfolder
    cases h
    exact hfolder

/-- Once its folders are made, a path means a folder. -/
theorem isFolder_of_makeFolders (h : d.makeFolders home p.anchor p.parts = (.ok (), d')) :
    d'.isFolder home p = true := by
  rw [makeFolders] at h
  split at h
  · next hmake =>
    cases h
    exact isFolder_of_makeFolder hmake
  · split_ifs at h
    · cases h
    split at h
    · cases h
    · split at h
      · next hensure =>
        cases h
        exact isFolder_of_ensureFolder hensure
      · cases h
  · split_ifs at h with hfolder
    · cases h
      exact hfolder
    · cases h

section

variable {anchor : Anchor}

theorem makeFolders_of_locate (hl : d.locate home ⟨anchor, parts⟩ = .ok place)
    (hfile : ∀ bytes, d.node? place ≠ some (.file bytes)) :
    (d.makeFolders home anchor parts).1 = .ok () := by
  obtain rfl := locate_eq_ok hl
  cases hn : d.node? (Path.destination home ⟨anchor, parts⟩) with
  | none => rw [makeFolders, makeFolder_eq_ok.mpr ⟨hl, hn, rfl⟩]
  | some node =>
    cases node with
    | file bytes => exact absurd hn (hfile bytes)
    | folder =>
      have hfolder : d.isFolder home ⟨anchor, parts⟩ = true :=
        isFolder_iff.mpr (find_eq_ok_iff.mpr ⟨hl, hn⟩)
      exact congrArg Prod.fst (makeFolders_of_isFolder hfolder)

theorem makeFolders_of_file {bytes : ByteArray} (hl : d.locate home ⟨anchor, parts⟩ = .ok place)
    (hn : d.node? place = some (.file bytes)) :
    d.makeFolders home anchor parts = (.error .alreadyThere, d) := by
  rw [makeFolders, makeFolder_of_some hl hn]
  exact if_neg (not_isFolder_of_file hl hn)

theorem makeFolders_of_error (hl : d.locate home ⟨anchor, parts⟩ = .error why)
    (hne : why ≠ .missing) : d.makeFolders home anchor parts = (.error why, d) := by
  rw [makeFolders, makeFolder_of_error hl]
  cases why with
  | missing => exact absurd rfl hne
  | _ => exact if_neg (not_isFolder_of_error hl)

/-- Where the way to a folder is missing, the folder before it is made first. -/
theorem makeFolders_of_missing (hl : d.locate home ⟨anchor, parts ++ [part]⟩ = .error .missing) :
    d.makeFolders home anchor (parts ++ [part]) =
      match d.makeFolders home anchor parts with
      | (.error why, d') => (.error why, d')
      | (.ok (), d') =>
        match d'.ensureFolder home ⟨anchor, parts ++ [part]⟩ with
        | .ok d'' => (.ok (), d'')
        | .error why => (.error why, d') := by
  rw [makeFolders, makeFolder_of_error hl]
  simp only [List.dropLast_concat]
  exact dif_neg (by simp)

theorem hasNull_append (h : (⟨anchor, parts⟩ : Path).hasNull = true) :
    (⟨anchor, parts ++ [part]⟩ : Path).hasNull = true := by
  unfold Path.hasNull at h ⊢
  rw [List.any_append, h, Bool.true_or]

theorem onTheWay_append (h : Path.OnTheWay home ⟨anchor, parts⟩ q) :
    Path.OnTheWay home ⟨anchor, parts ++ [part]⟩ q := by
  obtain ⟨begun, hbegun, hq⟩ := h
  exact ⟨begun, hbegun.trans (List.prefix_append _ _), hq⟩

/-- A folder can be ensured at a place that is reached and has no file. -/
theorem exists_ensureFolder (hl : d.locate home p = .ok place)
    (hfile : ∀ bytes, d.node? place ≠ some (.file bytes)) :
    ∃ d', d.ensureFolder home p = .ok d' := by
  unfold ensureFolder
  obtain rfl := locate_eq_ok hl
  cases hn : d.node? (p.destination home) with
  | none => exact ⟨_, by rw [makeFolder_eq_ok.mpr ⟨hl, hn, rfl⟩]⟩
  | some node =>
    cases node with
    | file bytes => exact absurd hn (hfile bytes)
    | folder =>
      have hfolder : d.isFolder home p = true := isFolder_iff.mpr (find_eq_ok_iff.mpr ⟨hl, hn⟩)
      rw [makeFolder_of_some hl hn]
      exact ⟨d, if_pos hfolder⟩

/-- In a folder one more can be made, if its name is not too long and no file has it. -/
theorem ensureFolder_child (h : d.isFolder home ⟨anchor, parts⟩ = true)
    (hnull : ¬ (⟨anchor, parts ++ [part]⟩ : Path).hasNull = true)
    (hfile : ∀ bytes,
      d.node? (Path.destination home ⟨anchor, parts ++ [part]⟩) ≠ some (.file bytes)) :
    (∃ d', d.ensureFolder home ⟨anchor, parts ++ [part]⟩ = .ok d') ∧
        part.utf8ByteSize ≤ maxNameSize ∨
      d.ensureFolder home ⟨anchor, parts ++ [part]⟩ = .error .nameTooLong ∧
        ¬ part.utf8ByteSize ≤ maxNameSize := by
  obtain ⟨hl, hn⟩ := find_eq_ok_iff.mp (isFolder_iff.mp h)
  rw [locate_eq_follow (hasNull_of_locate hl)] at hl
  have hchild : d.locate home ⟨anchor, parts ++ [part]⟩ =
      d.follow (Path.destination home ⟨anchor, parts⟩) [part] :=
    (locate_eq_follow hnull).trans (follow_append hl [part])
  by_cases hshort : part.utf8ByteSize ≤ maxNameSize
  · rw [follow_goOn hn (.inr hshort), follow] at hchild
    have hplace := locate_eq_ok hchild
    exact .inl ⟨exists_ensureFolder hchild fun bytes => hplace ▸ hfile bytes, hshort⟩
  · have hdots : part ≠ ".." := by
      rintro rfl
      exact hshort (by decide)
    rw [follow_of_stops (.nameTooLong hn hdots (Nat.lt_of_not_le hshort))] at hchild
    refine .inr ⟨?_, hshort⟩
    unfold ensureFolder
    rw [makeFolder_of_error hchild]
    exact if_neg (not_isFolder_of_error hchild)

/-- Where folders are made, files were there before. -/
theorem Grows.node?_file {made : Place → Prop} (h : Grows nowhere made nowhere d d')
    {bytes : ByteArray} (hn : d'.node? q = some (.file bytes)) : d.node? q = some (.file bytes) := by
  cases hq : d.node? q with
  | none =>
    obtain ⟨hfolder, -⟩ := h.fresh q _ id hq hn
    cases hfolder
  | some node =>
    rcases h.kept q node id hq with hq' | ⟨hlogged, -⟩
    · rw [← hq', hn]
    · exact hlogged.elim

/-- Where the way is missing, a folder can be made if the folders before it can be made and its
own name is not too long. -/
theorem fst_makeFolders_concat (hnull : ¬ (⟨anchor, parts ++ [part]⟩ : Path).hasNull = true)
    (hl : d.locate home ⟨anchor, parts ++ [part]⟩ = .error .missing)
    (hfile : ∀ bytes,
      d.node? (Path.destination home ⟨anchor, parts ++ [part]⟩) ≠ some (.file bytes))
    (hbegin : (d.makeFolders home anchor parts).1 =
      if ∀ name ∈ parts, name.utf8ByteSize ≤ maxNameSize then .ok () else .error .nameTooLong) :
    (d.makeFolders home anchor (parts ++ [part])).1 =
      if ∀ name ∈ parts ++ [part], name.utf8ByteSize ≤ maxNameSize then .ok ()
      else .error .nameTooLong := by
  obtain ⟨result, d₁, hmake⟩ : ∃ result d₁, d.makeFolders home anchor parts = (result, d₁) :=
    ⟨_, _, rfl⟩
  have hgrows := grows_makeFolders d home anchor parts
  rw [makeFolders_of_missing hl]
  rw [hmake] at hbegin hgrows ⊢
  by_cases hshort : ∀ name ∈ parts, name.utf8ByteSize ≤ maxNameSize
  · rw [if_pos hshort] at hbegin
    obtain rfl : result = .ok () := hbegin
    dsimp only
    have hfolder : d₁.isFolder home ⟨anchor, parts⟩ = true := isFolder_of_makeFolders hmake
    rcases ensureFolder_child hfolder hnull fun bytes hn => hfile bytes (hgrows.node?_file hn) with
      ⟨⟨d₂, hd₂⟩, hpart⟩ | ⟨hlong, hpart⟩
    · rw [hd₂, if_pos]
      exact List.forall_mem_append.mpr ⟨hshort, List.forall_mem_singleton.mpr hpart⟩
    · rw [hlong, if_neg fun hall => hpart (hall part (by simp))]
  · rw [if_neg hshort] at hbegin
    obtain rfl : result = .error .nameTooLong := hbegin
    dsimp only
    rw [if_neg fun hall => hshort fun name hname => hall name (List.mem_append_left _ hname)]

/-- Where no file stands on the way, folders can be made if no name is too long. -/
theorem fst_makeFolders_of_no_file (hnull : ¬ (⟨anchor, parts⟩ : Path).hasNull = true)
    (hfile : ∀ q, Path.OnTheWay home ⟨anchor, parts⟩ q → ∀ bytes, d.node? q ≠ some (.file bytes)) :
    (d.makeFolders home anchor parts).1 =
      if ∀ part ∈ parts, part.utf8ByteSize ≤ maxNameSize then .ok () else .error .nameTooLong := by
  induction parts using List.reverseRecOn with
  | nil =>
    rw [if_pos (by simp)]
    exact makeFolders_of_locate (by rw [locate_eq_follow hnull]; rfl)
      (hfile _ ⟨[], List.prefix_refl _, rfl⟩)
  | append_singleton parts part ih =>
    have hend := hfile _ ⟨_, List.prefix_refl _, rfl⟩
    cases hl : d.locate home ⟨anchor, parts ++ [part]⟩ with
    | ok place =>
      rw [if_pos (size_le_of_follow ((locate_eq_follow hnull).symm.trans hl))]
      obtain rfl := locate_eq_ok hl
      exact makeFolders_of_locate hl hend
    | error why =>
      have hfollow := (locate_eq_follow hnull).symm.trans hl
      obtain ⟨front, stop, back, hparts, -, hstops⟩ := follow_eq_error_iff.mp hfollow
      cases hstops with
      | missing =>
        exact fst_makeFolders_concat hnull hl hend
          (ih (fun h => hnull (hasNull_append h)) fun q hq => hfile q (onTheWay_append hq))
      | notFolder hn =>
        exact absurd hn (hfile _ ⟨front, ⟨stop :: back, hparts.symm⟩, rfl⟩ _)
      | nameTooLong _ _ hlong =>
        rw [makeFolders_of_error hl (by simp), if_neg]
        intro hshort
        have hparts : parts ++ [part] = front ++ stop :: back := hparts
        exact Nat.not_lt.mpr (hshort stop (by rw [hparts]; simp)) hlong

section

variable {begun : List String} {bytes : ByteArray} (hbegun : begun <+: parts)
  (hn : d.node? (Path.destination home ⟨anchor, begun⟩) = some (.file bytes))
include hbegun hn

/-- A path that can be followed does not go on from a file. -/
theorem eq_of_locate_of_file (hl : d.locate home ⟨anchor, parts⟩ = .ok place) :
    begun = parts := by
  by_contra hne
  rw [locate_eq_follow (hasNull_of_locate hl)] at hl
  have hfolder := folder_of_follow hl hbegun hne
  exact absurd (hn.symm.trans hfolder) (by simp)

/-- A path that meets a file gets as far as this file, or stops at a folder before it, if nothing
is missing before what is there. -/
theorem locate_ne_missing (hnull : ¬ (⟨anchor, parts⟩ : Path).hasNull = true)
    (hmissing : ∀ front, front <+: begun →
      d.node? (Path.destination home ⟨anchor, front⟩) = none →
      d.node? (Path.destination home ⟨anchor, begun⟩) = none) :
    d.locate home ⟨anchor, parts⟩ ≠ .error .missing := by
  intro hl
  rw [locate_eq_follow hnull] at hl
  obtain ⟨front, part, back, hparts, hfront, hstops⟩ := follow_eq_error_iff.mp hl
  cases hstops with
  | missing hnone =>
  have hbehind : front <+: begun → False := fun hle =>
    absurd (hn.symm.trans (hmissing front hle hnone)) (by simp)
  have hprefix : front <+: parts := ⟨part :: back, hparts.symm⟩
  rcases List.prefix_or_prefix_of_prefix hprefix hbegun with hle | hle
  · exact hbehind hle
  · have hfolder := folder_of_follow hfront hle fun heq => hbehind (heq ▸ List.prefix_refl _)
    exact absurd (hn.symm.trans hfolder) (by simp)

end

end

end Disk

end ApiSurface
