/-
ApiSurface.Proofs.Disk.Links — disks as they are seen where there are links.

A disk has no links. A program that follows links sees one on which each link is the file that
it leads to (`Disk.through`). A link that leads to no file is as good as none, also if it leads
to a folder: a walk does not enter folders through links.

What is seen at a link depends on the file at its other end. So it stays the same as long as
scans write and log neither here nor there (`Disk.Shows.grows`), and is something else once
they do.
-/
import ApiSurface.Proofs.Disk.Evolves

namespace ApiSurface

/-- A link: where it is, and where it leads in the end. -/
structure Link where
  place : Place
  target : Place

namespace Disk

/-- A disk, seen with a link on it. -/
def through (d : Disk) (link : Link) : Disk :=
  match d.node? link.target with
  | some (.file bytes) => d.put link.place (.file bytes)
  | _ => d

/-- A disk, seen with some links on it. -/
def throughAll (d : Disk) (links : List Link) : Disk := links.foldl through d

/-- The files that links lead to are seen where the links are. -/
def Shows (d : Disk) (links : List Link) : Prop :=
  ∀ link ∈ links, ∀ bytes, d.node? link.target = some (.file bytes) →
    d.node? link.place = some (.file bytes)

variable {d d' : Disk} {place : Place} {node : Node} {links : List Link}

/-- Nothing changes if a node is put where it is. -/
theorem put_eq_self (hd : d.HasDistinctPlaces) (hplace : place ≠ [])
    (hnode : d.node? place = some node) : d.put place node = d := by
  rw [node?_of_ne hplace] at hnode
  have hmem : (place, node) ∈ d.nodes := (lookup_eq_some_iff_mem hd).mp hnode
  rw [put, if_pos (List.any_eq_true.mpr ⟨_, hmem, beq_self_eq_true place⟩)]
  have hsame : ∀ entry ∈ d.nodes, (if entry.1 == place then (place, node) else entry) = entry := by
    intro entry hentry
    split_ifs with hkey
    · exact List.inj_on_of_nodup_map hd hmem hentry (beq_iff_eq.mp hkey).symm
    · rfl
  rw [List.map_congr_left hsame, List.map_id']

/-- Where a disk shows its links already, nothing more is seen through them. -/
theorem Shows.throughAll_eq (hs : d.Shows links) (hd : d.HasDistinctPlaces) :
    d.throughAll links = d := by
  induction links with
  | nil => rfl
  | cons link links ih =>
    obtain ⟨hlink, hlinks⟩ := List.forall_mem_cons.mp hs
    have hthrough : d.through link = d := by
      unfold through
      split
      · next bytes htarget =>
        have hplace := hlink bytes htarget
        exact put_eq_self hd (ne_nil_of_node? (by rw [hplace]; nofun)) hplace
      · rfl
    rw [throughAll, List.foldl_cons, hthrough]
    exact ih hlinks

/-- What is seen at links stays the same while a disk grows, as long as nothing is logged or
written there or where they lead. -/
theorem Shows.grows {logged made written : Place → Prop} (hs : d.Shows links)
    (hg : Grows logged made written d d')
    (hapart : ∀ link ∈ links, ∀ q, logged q ∨ written q → q ≠ link.place ∧ q ≠ link.target) :
    d'.Shows links := by
  have hkept : ∀ q node, ¬ logged q → ¬ written q → d.node? q = some node →
      d'.node? q = some node := by
    intro q node hl hw hq
    exact (hg.kept q node hw hq).resolve_right fun hlogged => hl hlogged.1
  intro link hlink bytes htarget
  have happly := hapart link hlink
  have hplace : ¬ logged link.place ∧ ¬ written link.place :=
    ⟨fun h => (happly _ (.inl h)).1 rfl, fun h => (happly _ (.inr h)).1 rfl⟩
  have hend : ¬ logged link.target ∧ ¬ written link.target :=
    ⟨fun h => (happly _ (.inl h)).2 rfl, fun h => (happly _ (.inr h)).2 rfl⟩
  cases hbefore : d.node? link.target with
  | none => cases (hg.fresh _ _ hend.2 hbefore htarget).1
  | some node =>
    have hsame := hkept _ _ hend.1 hend.2 hbefore
    rw [htarget, Option.some_inj] at hsame
    subst hsame
    exact hkept _ _ hplace.1 hplace.2 (hs link hlink bytes hbefore)

end Disk

end ApiSurface
