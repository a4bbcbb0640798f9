/-
ApiSurface.Proofs.Disk.Preserves — what operations leave as it is.

`Preserves changed d d'` says that an operation from `d` to `d'` takes no folder away and
no file either, and gives new contents to files at the places `changed` only. New nodes
may come, so a path that could be followed before can be followed afterwards, to the same
place: where a path leads is a matter of its parts alone (`locate_eq_ok`).

Replacing a file preserves everything if it fails, and everything but the one place if it
succeeds; then the place holds the new content (`replaceFile_cases`). Temporary files come
and go at places where nothing was.
-/
import ApiSurface.Disk.Replace
import ApiSurface.Proofs.Outcome
import Mathlib.Data.List.Induction

namespace ApiSurface

namespace Disk

/-! ## 1. Nodes -/

/-- Looking up in an association list in which the value of a key was changed. -/
theorem lookup_map_put {place q : Place} {node : Node} {nodes : List (Place × Node)} :
    (nodes.map fun entry => if entry.1 == place then (place, node) else entry).lookup q =
      if q = place then (nodes.lookup q).map fun _ => node else nodes.lookup q := by
  induction nodes with
  | nil => simp
  | cons entry nodes ih =>
    obtain ⟨key, old⟩ := entry
    rw [List.map_cons, List.lookup_cons]
    by_cases hkey : key = place
    · rw [if_pos (by simpa using hkey), List.lookup_cons]
      by_cases hq : q = place
      · simp [hkey, hq]
      · have hb : (q == place) = false := by simp [hq]
        rw [hkey, hb, ih]
    · rw [if_neg (by simpa using hkey), List.lookup_cons]
      by_cases hq : q = key
      · simp [hq, hkey]
      · have hb : (q == key) = false := by simp [hq]
        rw [hb, ih]

/-- Looking up in an association list from which a key was removed. -/
theorem lookup_filter_ne {place q : Place} {nodes : List (Place × Node)} :
    (nodes.filter (·.1 != place)).lookup q = if q = place then none else nodes.lookup q := by
  induction nodes with
  | nil => simp
  | cons entry nodes ih =>
    obtain ⟨key, node⟩ := entry
    rw [List.lookup_cons]
    by_cases hkey : key = place
    · rw [List.filter_cons_of_neg (by simpa using hkey), ih]
      by_cases hq : q = place
      · rw [if_pos hq, if_pos hq]
      · have hb : (q == key) = false := by simp [hkey, hq]
        rw [if_neg hq, if_neg hq, hb]
    · rw [List.filter_cons_of_pos (by simpa using hkey), List.lookup_cons, ih]
      by_cases hq : q = key
      · simp [hq, hkey]
      · have hb : (q == key) = false := by simp [hq]
        rw [hb]

theorem any_eq_isSome_lookup {place : Place} {nodes : List (Place × Node)} :
    nodes.any (·.1 == place) = (nodes.lookup place).isSome := by
  induction nodes with
  | nil => rfl
  | cons entry nodes ih =>
    rw [List.any_cons, List.lookup_cons, ih]
    by_cases h : entry.1 = place
    · simp [h]
    · have hb : (entry.1 == place) = false := by simp [h]
      have hb' : (place == entry.1) = false := by simp [Ne.symm h]
      rw [hb, hb', Bool.false_or]

variable {d : Disk} {place q : Place} {node : Node}

theorem node?_of_ne (hq : q ≠ []) : d.node? q = d.nodes.lookup q := if_neg (by simpa using hq)

/-- A node that is put is there, and all other places are as before. -/
theorem node?_put (hp : place ≠ []) :
    (d.put place node).node? q = if q = place then some node else d.node? q := by
  by_cases hq : q = []
  · rw [if_neg (by rw [hq]; exact hp.symm), hq]
    rfl
  rw [node?_of_ne hq, node?_of_ne hq, put, any_eq_isSome_lookup]
  cases hplace : d.nodes.lookup place with
  | none =>
    rw [if_neg (by simp), List.lookup_append]
    by_cases hqp : q = place
    · simp [hqp, hplace]
    · have hb : (q == place) = false := by simp [hqp]
      simp [List.lookup_cons, hb, hqp]
  | some old =>
    rw [if_pos Option.isSome_some, lookup_map_put]
    by_cases hqp : q = place
    · simp [hqp, hplace]
    · rw [if_neg hqp, if_neg hqp]

/-- A node that is removed is gone, and all other places are as before. -/
theorem node?_remove (hp : place ≠ []) :
    (d.remove place).node? q = if q = place then none else d.node? q := by
  by_cases hq : q = []
  · rw [if_neg (by rw [hq]; exact hp.symm), hq]
    rfl
  rw [node?_of_ne hq, node?_of_ne hq, remove, lookup_filter_ne]

/-! ## 2. Paths -/

end Disk

/-- The place behind a place after one part of a path. -/
def Path.goOn (place : Place) (part : String) : Place :=
  if part = ".." then place.dropLast else place ++ [part]

/-- The place to which a path leads, if it leads anywhere. -/
def Path.destination (home : Place) (p : Path) : Place :=
  p.parts.foldl goOn (if p.isAbsolute then [] else home)

theorem Path.destination_child (home : Place) (base : Path) {part : String} (h : part ≠ "..") :
    (base.child part).destination home = base.destination home ++ [part] := by
  rw [destination, child, List.foldl_append, List.foldl_cons, List.foldl_nil, goOn, if_neg h]
  rfl

namespace Disk

theorem follow_eq_ok {d : Disk} {place q : Place} {parts : List String}
    (h : d.follow place parts = .ok q) : q = parts.foldl Path.goOn place := by
  induction parts generalizing place with
  | nil =>
    cases h
    rfl
  | cons part parts ih =>
    rw [List.foldl_cons, Path.goOn]
    rw [follow] at h
    split at h
    · cases h
    · cases h
    · split_ifs at h with hdots hlong
      · rw [if_pos hdots, ih h]
      · rw [if_neg hdots, ih h]

/-- Where a path leads is a matter of its parts alone. -/
theorem locate_eq_ok {d : Disk} {home place : Place} {p : Path} (h : d.locate home p = .ok place) :
    place = p.destination home := by
  unfold locate at h
  split at h
  · cases h
  · exact follow_eq_ok h

/-! ## 3. What is preserved -/

/-- From one disk to another no folder goes away, and no file but those at some places
changes. -/
structure Preserves (changed : Place → Prop) (d d' : Disk) : Prop where
  folder : ∀ q, d.node? q = some .folder → d'.node? q = some .folder
  file : ∀ q bytes, ¬ changed q → d.node? q = some (.file bytes) → d'.node? q = some (.file bytes)

/-- Nothing is changed. -/
abbrev Spares : Disk → Disk → Prop := Preserves fun _ => False

namespace Preserves

variable {changed : Place → Prop} {d d' d'' : Disk}

theorem refl (d : Disk) : Preserves changed d d := ⟨fun _ h => h, fun _ _ _ h => h⟩

theorem trans (h : Preserves changed d d') (h' : Preserves changed d' d'') :
    Preserves changed d d'' where
  folder q hq := h'.folder q (h.folder q hq)
  file q bytes hc hq := h'.file q bytes hc (h.file q bytes hc hq)

theorem follow (h : Preserves changed d d') {place q : Place} {parts : List String}
    (hf : d.follow place parts = .ok q) : d'.follow place parts = .ok q := by
  induction parts generalizing place with
  | nil => exact hf
  | cons part parts ih =>
    rw [Disk.follow] at hf ⊢
    split at hf
    · cases hf
    · cases hf
    · next hfolder =>
      rw [h.folder _ hfolder]
      dsimp only
      split_ifs at hf ⊢
      · exact ih hf
      · exact ih hf

/-- A path that could be followed leads to the same place afterwards. -/
theorem locate (h : Preserves changed d d') {home place : Place} {p : Path}
    (hl : d.locate home p = .ok place) : d'.locate home p = .ok place := by
  unfold Disk.locate at hl ⊢
  by_cases hnull : p.hasNull = true
  · rw [if_pos hnull] at hl
    cases hl
  · rw [if_neg hnull] at hl ⊢
    exact h.follow hl

end Preserves

variable {d d' : Disk} {place : Place} {node : Node}

theorem Spares.preserves {changed : Place → Prop} (h : Spares d d') : Preserves changed d d' where
  folder := h.folder
  file q bytes _ := h.file q bytes id

theorem ne_nil_of_node? (h : d.node? place ≠ some .folder) : place ≠ [] := by
  rintro rfl
  exact h rfl

/-- A node may be put where there is no folder. -/
theorem preserves_put (h : d.node? place ≠ some .folder) :
    Preserves (· = place) d (d.put place node) where
  folder q hq := by rw [node?_put (ne_nil_of_node? h), if_neg (by rintro rfl; exact h hq), hq]
  file q bytes hne hq := by rw [node?_put (ne_nil_of_node? h), if_neg hne, hq]

/-- Whatever is no folder may be removed. -/
theorem preserves_remove (h : d.node? place ≠ some .folder) :
    Preserves (· = place) d (d.remove place) where
  folder q hq := by rw [node?_remove (ne_nil_of_node? h), if_neg (by rintro rfl; exact h hq), hq]
  file q bytes hne hq := by rw [node?_remove (ne_nil_of_node? h), if_neg hne, hq]

/-- A change at a place where nothing was does no harm. -/
theorem Preserves.spares (h : Preserves (· = place) d d') (hnone : d.node? place = none) :
    Spares d d' where
  folder := h.folder
  file q bytes _ hq := h.file q bytes (by rintro rfl; simp [hnone] at hq) hq

/-- More bytes at the end of a file change this file only. -/
theorem preserves_append {bytes : ByteArray} : Preserves (· = place) d (d.append place bytes) := by
  unfold append
  split
  · next h => exact preserves_put (by simp [h])
  · exact .refl d

/-- The nodes after more bytes at the end of a file. -/
theorem node?_append {old bytes : ByteArray} (h : d.node? place = some (.file old)) (q : Place) :
    (d.append place bytes).node? q = if q = place then some (.file (old ++ bytes)) else d.node? q := by
  have hne : place ≠ [] := ne_nil_of_node? (d := d) (by simp [h])
  rw [append, h, node?_put hne]

theorem node?_append_empty (q : Place) : (d.append place .empty).node? q = d.node? q := by
  match hplace : d.node? place with
  | none => rw [append, hplace]
  | some .folder => rw [append, hplace]
  | some (.file old) =>
    rw [node?_append hplace, ByteArray.append_empty]
    split_ifs with hq
    · rw [hq, hplace]
    · rfl

/-! ## 4. Folders -/

/-- A folder is made at a place that is reached and where nothing is. -/
theorem makeFolder_eq_ok {home : Place} {p : Path} : d.makeFolder home p = .ok d' ↔
    d.locate home p = .ok (p.destination home) ∧ d.node? (p.destination home) = none ∧
      d' = d.put (p.destination home) .folder := by
  rw [makeFolder, bind_eq_ok]
  constructor
  · rintro ⟨place, hl, h⟩
    obtain rfl := locate_eq_ok hl
    split at h
    · cases h
    · next hnone =>
      cases h
      exact ⟨hl, hnone, rfl⟩
  · rintro ⟨hl, hnone, rfl⟩
    exact ⟨_, hl, by rw [hnone]⟩

theorem spares_makeFolder {home : Place} {p : Path} (h : d.makeFolder home p = .ok d') :
    Spares d d' := by
  obtain ⟨-, hnone, rfl⟩ := makeFolder_eq_ok.mp h
  exact (preserves_put (by simp [hnone])).spares hnone

/-- Making the folders of a path makes one folder after another, whether it succeeds or
fails; so what each of these steps keeps up is kept up by all of them. -/
theorem makeFolders_rel {R : Disk → Disk → Prop} (hrefl : ∀ d, R d d)
    (htrans : ∀ d d' d'', R d d' → R d' d'' → R d d'') {home : Place} {anchor : Anchor}
    {parts : List String}
    (hmake : ∀ d d' begun, begun <+: parts → d.makeFolder home ⟨anchor, begun⟩ = .ok d' → R d d')
    (d : Disk) : R d (d.makeFolders home anchor parts).2 := by
  have hensure : ∀ d d' begun, begun <+: parts → d.ensureFolder home ⟨anchor, begun⟩ = .ok d' →
      R d d' := by
    intro d d' begun hbegun h
    unfold ensureFolder at h
    split at h
    · next heq =>
      cases h
      exact hmake _ _ _ hbegun heq
    · split_ifs at h
      cases h
      exact hrefl _
  induction parts using List.reverseRecOn with
  | nil =>
    rw [makeFolders]
    split
    · next heq => exact hmake _ _ _ (List.prefix_refl _) heq
    · exact hrefl _
    · split_ifs <;> exact hrefl _
  | append_singleton parts part ih =>
    have hbegin := ih (fun d d' begun hbegun => hmake d d' begun (hbegun.trans (List.prefix_append _ _)))
      (fun d d' begun hbegun => hensure d d' begun (hbegun.trans (List.prefix_append _ _)))
    rw [makeFolders]
    split
    · next heq => exact hmake _ _ _ (List.prefix_refl _) heq
    · rw [dif_neg (by simp)]
      simp only [List.dropLast_concat]
      split
      · next heq =>
        rw [heq] at hbegin
        exact hbegin
      · next heq =>
        rw [heq] at hbegin
        split
        · next h => exact htrans _ _ _ hbegin (hensure _ _ _ (List.prefix_refl _) h)
        · exact hbegin
    · split_ifs <;> exact hrefl _

/-- Making folders spares everything, whether it succeeds or fails. -/
theorem spares_makeFolders (d : Disk) (home : Place) (anchor : Anchor) (parts : List String) :
    Spares d (d.makeFolders home anchor parts).2 :=
  makeFolders_rel .refl (fun _ _ _ => .trans) (fun _ _ _ _ => spares_makeFolder) d

/-! ## 5. Replacing a file -/

theorem freePlace_eq_ok {home : Place} {p : Path} {n left : Nat}
    (h : d.freePlace home p n left = .ok place) : d.node? place = none := by
  induction left generalizing n with
  | zero => cases h
  | succ left ih =>
    rw [freePlace, bind_eq_ok] at h
    obtain ⟨place', -, h⟩ := h
    split_ifs at h with hnone
    · cases h
      exact Option.isNone_iff_eq_none.mp hnone
    · exact ih h

/-- The file that a path means holds some bytes. -/
structure HasFile (d : Disk) (home : Place) (p : Path) (bytes : ByteArray) : Prop where
  locate : d.locate home p = .ok (p.destination home)
  node : d.node? (p.destination home) = some (.file bytes)

theorem HasFile.read {home : Place} {p : Path} {bytes : ByteArray} (h : d.HasFile home p bytes) :
    d.read home p = .ok bytes := by
  simp [Disk.read, find, h.locate, h.node, bind, Except.bind]

theorem HasFile.preserved {changed : Place → Prop} {home : Place} {p : Path} {bytes : ByteArray}
    (h : d.HasFile home p bytes) (hd : Preserves changed d d')
    (hc : ¬ changed (p.destination home)) : d'.HasFile home p bytes :=
  ⟨hd.locate h.locate, hd.file _ _ hc h.node⟩

theorem attempt_eq_ok {α : Type} {h : Host} {step : ReplaceStep} {answer : Except Trouble α} {a : α}
    (ha : h.attempt step answer = .ok a) : answer = .ok a := by
  unfold Host.attempt at ha
  split at ha
  · cases ha
  · exact ha

theorem filePlace_eq_ok {home : Place} {p : Path} (h : d.filePlace home p = .ok place) :
    d.locate home p = .ok place ∧ d.node? place ≠ some .folder := by
  rw [filePlace, bind_eq_ok] at h
  obtain ⟨place', hl, h⟩ := h
  split at h
  · cases h
  · next hn =>
    cases h
    exact ⟨hl, hn⟩

/-- A filled temporary file takes the place that it is meant for, or goes away. -/
theorem fillAndRename_cases {h : Host} {temporary : Place} {p : Path} {bytes : ByteArray}
    (hfree : d.node? temporary = none) (hd' : d' = d.put temporary (.file .empty)) :
    (∃ why, (d'.fillAndRename h temporary p (some bytes)).1 = .error why ∧
      Spares d (d'.fillAndRename h temporary p (some bytes)).2) ∨
    ((d'.fillAndRename h temporary p (some bytes)).1 = .ok () ∧
      (d'.fillAndRename h temporary p (some bytes)).2.HasFile h.home p bytes ∧
      Preserves (· = p.destination h.home) d (d'.fillAndRename h temporary p (some bytes)).2) := by
  have ht : temporary ≠ [] := ne_nil_of_node? (d := d) (by simp [hfree])
  have htemporary : d'.node? temporary = some (.file .empty) := by rw [hd', node?_put ht, if_pos rfl]
  have hremove : Preserves (· = temporary) d' (d'.remove temporary) :=
    preserves_remove (by simp [htemporary])
  have hgone : Spares d (d'.remove temporary) := by
    have hput : Preserves (· = temporary) d d' := by
      rw [hd']
      exact preserves_put (by simp [hfree])
    exact (hput.trans hremove).spares hfree
  unfold fillAndRename
  dsimp only
  split
  · exact .inl ⟨_, rfl, hgone⟩
  split
  · exact .inl ⟨_, rfl, hgone⟩
  next place hrename =>
  obtain ⟨hl, hn⟩ := filePlace_eq_ok (attempt_eq_ok hrename)
  obtain rfl := locate_eq_ok hl
  have hp := ne_nil_of_node? hn
  have hn' : (d'.remove temporary).node? (p.destination h.home) ≠ some .folder := by
    rw [node?_remove ht]
    split_ifs
    · simp
    · exact hn
  have hput : Preserves (· = p.destination h.home) _ ((d'.remove temporary).put _ (.file bytes)) :=
    preserves_put hn'
  refine .inr ⟨rfl, ⟨?_, ?_⟩, (hgone.preserves).trans hput⟩
  · exact hput.locate (hremove.locate hl)
  · rw [node?_put hp, if_pos rfl]

/-- Replacing a file succeeds and leaves its new content, or fails and spares everything. -/
theorem replaceFile_cases (d : Disk) (h : Host) (p : Path) (bytes : ByteArray) :
    (∃ why, (d.replaceFile h p (some bytes)).1 = .error why ∧
      Spares d (d.replaceFile h p (some bytes)).2) ∨
    ((d.replaceFile h p (some bytes)).1 = .ok () ∧
      (d.replaceFile h p (some bytes)).2.HasFile h.home p bytes ∧
      Preserves (· = p.destination h.home) d (d.replaceFile h p (some bytes)).2) := by
  unfold replaceFile
  split
  · exact .inl ⟨_, rfl, .refl d⟩
  have hfolders := spares_makeFolders d h.home p.anchor p.parent.parts
  split
  · next heq =>
    rw [heq] at hfolders
    exact .inl ⟨_, rfl, hfolders⟩
  next d₁ heq =>
  rw [heq] at hfolders
  split
  · exact .inl ⟨_, rfl, hfolders⟩
  next temporary htemporary =>
  have hfree := freePlace_eq_ok (attempt_eq_ok htemporary)
  rcases @fillAndRename_cases d₁ _ h temporary p bytes hfree rfl with
    ⟨why, hwhy, hspares⟩ | ⟨hok, hfile, hpreserves⟩
  · exact .inl ⟨why, hwhy, hfolders.trans hspares⟩
  · exact .inr ⟨hok, hfile, hfolders.preserves.trans hpreserves⟩

end Disk

end ApiSurface
