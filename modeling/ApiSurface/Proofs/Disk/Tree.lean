/-
ApiSurface.Proofs.Disk.Tree — disks that hold a tree of folders.

The nodes of a disk are a list, and nothing in it keeps a file from standing where no
folder is. `IsTree` says what holds on every disk of a host: a place has one node, what is
on the way to it are folders, and its names are names that the host allows. On such a disk
a path goes on from a place to all that stands below it (`IsTree.follow_below`), and the
files that a search finds below a place are those that can be read there.
-/
import ApiSurface.Proofs.ClassPath.Names
import ApiSurface.Proofs.Disk.Preserves

namespace ApiSurface.Disk

/-- A name that a host allows. -/
structure IsName (name : String) : Prop where
  notParent : name ≠ ".."
  notTooLong : name.utf8ByteSize ≤ maxNameSize
  notNull : Char.ofNat 0 ∉ name.toList

instance (name : String) : Decidable (IsName name) :=
  decidable_of_iff
    (name ≠ ".." ∧ name.utf8ByteSize ≤ maxNameSize ∧ Char.ofNat 0 ∉ name.toList)
    ⟨fun h => ⟨h.1, h.2.1, h.2.2⟩, fun h => ⟨h.notParent, h.notTooLong, h.notNull⟩⟩

/-- No place has two nodes. -/
def HasDistinctPlaces (d : Disk) : Prop := (d.nodes.map (·.1)).Nodup

/-- A disk holds a tree: every place has one node, which lies in folders and has a name that
is allowed. -/
structure IsTree (d : Disk) : Prop where
  nodup : (d.nodes.map (·.1)).Nodup
  onTheWay : ∀ place part rest, (d.node? (place ++ part :: rest)).isSome →
    d.node? place = some .folder
  isName : ∀ place part rest, (d.node? (place ++ part :: rest)).isSome → IsName part

variable {d : Disk} {home place : Place} {p : Path}

/-- A disk holds a tree if each of its nodes lies in folders and has a name that is allowed. -/
theorem isTree_of_nodes (hnodup : (d.nodes.map (·.1)).Nodup)
    (hfolders : ∀ n ∈ d.nodes, ∀ i < n.1.length, d.node? (n.1.take i) = some .folder)
    (hnames : ∀ n ∈ d.nodes, ∀ part ∈ n.1, IsName part) : d.IsTree := by
  have hmem : ∀ place part rest, (d.node? (place ++ part :: rest)).isSome →
      ∃ n ∈ d.nodes, n.1 = place ++ part :: rest := by
    intro place part rest hn
    obtain ⟨node, hnode⟩ := Option.isSome_iff_exists.mp hn
    rw [node?_of_ne (by simp)] at hnode
    exact ⟨_, (lookup_eq_some_iff_mem hnodup).mp hnode, rfl⟩
  refine ⟨hnodup, fun place part rest hn => ?_, fun place part rest hn => ?_⟩
  · obtain ⟨n, hn, hplace⟩ := hmem place part rest hn
    have hfolder := hfolders n hn place.length (by simp [hplace])
    rwa [hplace, List.take_left] at hfolder
  · obtain ⟨n, hn, hplace⟩ := hmem place part rest hn
    exact hnames n hn part (by simp [hplace])

/-- The parts behind a place are followed from there. -/
theorem follow_append {start : Place} {parts : List String} (h : d.follow start parts = .ok place)
    (rest : List String) : d.follow start (parts ++ rest) = d.follow place rest := by
  induction parts generalizing start with
  | nil =>
    cases h
    rfl
  | cons part parts ih =>
    rw [List.cons_append, follow]
    rw [follow] at h
    cases hn : d.node? start with
    | none =>
      rw [hn] at h
      cases h
    | some node =>
      rw [hn] at h
      cases node with
      | file bytes => cases h
      | folder =>
        dsimp only at h ⊢
        split_ifs at h ⊢
        · exact ih h
        · exact ih h

/-- The beginning of a path is followed by what lies behind the place that it means. -/
theorem locate_append {q : Place} (hp : d.locate home p = .ok place) {parts : List String}
    (hnull : ∀ part ∈ parts, Char.ofNat 0 ∉ part.toList) (hfollow : d.follow place parts = .ok q) :
    d.locate home { p with parts := p.parts ++ parts } = .ok q := by
  have hbegin : ¬ p.hasNull = true := by
    intro hnull
    rw [locate, if_pos hnull] at hp
    cases hp
  have hfree : ¬ (Path.mk p.anchor (p.parts ++ parts)).hasNull = true := by
    unfold Path.hasNull at hbegin ⊢
    rw [List.any_append, Bool.or_eq_true, not_or]
    refine ⟨hbegin, ?_⟩
    rw [List.any_eq_true]
    rintro ⟨part, hpart, hcontains⟩
    exact hnull part hpart (List.contains_iff_mem.mp hcontains)
  rw [locate, if_neg hbegin] at hp
  rw [locate, if_neg hfree]
  exact (follow_append hp parts).trans hfollow

namespace IsTree

variable (ht : d.IsTree)
include ht

/-- What stands below a place is found from there. -/
theorem follow_below {parts : List String} (hn : (d.node? (place ++ parts)).isSome) :
    d.follow place parts = .ok (place ++ parts) := by
  induction parts generalizing place with
  | nil => rw [follow, List.append_nil]
  | cons part rest ih =>
    have hlong := Nat.not_lt.mpr (ht.isName place part rest hn).notTooLong
    rw [follow, ht.onTheWay place part rest hn]
    dsimp only
    rw [if_neg (ht.isName place part rest hn).notParent, if_neg hlong, ih, List.append_assoc]
    · rfl
    · rwa [List.append_assoc]

theorem notNull_below {parts : List String} (hn : (d.node? (place ++ parts)).isSome) :
    ∀ part ∈ parts, Char.ofNat 0 ∉ part.toList := by
  intro part hpart
  obtain ⟨before, behind, rfl⟩ := List.append_of_mem hpart
  rw [← List.append_assoc] at hn
  exact (ht.isName _ part behind hn).notNull

/-- A path goes on from the place that it means to what stands below. -/
theorem locate_below (hp : d.locate home p = .ok place) {parts : List String}
    (hn : (d.node? (place ++ parts)).isSome) :
    d.locate home { p with parts := p.parts ++ parts } = .ok (place ++ parts) :=
  locate_append hp (ht.notNull_below hn) (ht.follow_below hn)

theorem read_below (hp : d.locate home p = .ok place) {parts : List String} {bytes : ByteArray}
    (hn : d.node? (place ++ parts) = some (.file bytes)) :
    d.read home { p with parts := p.parts ++ parts } = .ok bytes := by
  rw [read, find, ht.locate_below hp (by rw [hn]; rfl)]
  simp only [bind, Except.bind, hn]

end IsTree

end ApiSurface.Disk
