/-
ApiSurface.Disk.Basic — a disk as a value.

A disk maps places to nodes. A place is the list of names from the root; the
root itself is always a folder. An operation gives the disk after it, or the
trouble that the host reports.

There are no links on a disk. Of a host that has some, it holds what a program sees:
a link is the file that it leads to, and no file is found through a link to a folder.

A path is followed part by part, and every part but the last must be a folder
that exists. So a double dot behind a missing name is trouble, although the path
without it would be fine.
-/
import ApiSurface.Disk.Path

namespace ApiSurface

/-- What a place holds. -/
inductive Node where
  | file (bytes : ByteArray)
  | folder

/-- Files are the same if their bytes are. -/
instance : DecidableEq Node
  | .file a, .file b => decidable_of_iff (a.data = b.data) (by simp [ByteArray.ext_iff])
  | .file _, .folder => .isFalse (by simp)
  | .folder, .file _ => .isFalse (by simp)
  | .folder, .folder => .isTrue rfl

/-- Why the host refuses an operation. -/
inductive Trouble where
  | missing
  | notFolder
  | isFolder
  | alreadyThere
  | nameTooLong
  /-- The null character in a path. -/
  | nullInPath
  /-- Any other refusal, such as a full disk. -/
  | refused
deriving DecidableEq

/-- What is wrong, in words. -/
def Trouble.message : Trouble → String
  | .missing => "no such file or folder"
  | .notFolder => "not a folder"
  | .isFolder => "is a folder"
  | .alreadyThere => "already exists"
  | .nameTooLong => "name too long"
  | .nullInPath => "null character in path"
  | .refused => "refused by the host"

/-- A place: the names from the root. -/
abbrev Place := List String

/-- A disk: the nodes below the root. -/
structure Disk where
  nodes : List (Place × Node)

namespace Disk

/-- A disk with nothing on it. -/
def empty : Disk := ⟨[]⟩

/-- The node at a place. -/
def node? (d : Disk) (place : Place) : Option Node :=
  if place.isEmpty then some .folder else d.nodes.lookup place

/-- The disk with a node put at a place, where it replaces what was there. -/
def put (d : Disk) (place : Place) (node : Node) : Disk :=
  if d.nodes.any (·.1 == place) then
    ⟨d.nodes.map fun entry => if entry.1 == place then (place, node) else entry⟩
  else ⟨d.nodes ++ [(place, node)]⟩

/-- The disk without the node at a place. -/
def remove (d : Disk) (place : Place) : Disk :=
  ⟨d.nodes.filter (·.1 != place)⟩

/-- The greatest count of bytes in a name. -/
def maxNameSize : Nat := 255

/-- Follows the parts of a path from a place. -/
def follow (d : Disk) (place : Place) : List String → Except Trouble Place
  | [] => .ok place
  | part :: rest =>
    match d.node? place with
    | none => .error .missing
    | some (.file _) => .error .notFolder
    | some .folder =>
      if part = ".." then d.follow place.dropLast rest
      else if maxNameSize < part.utf8ByteSize then .error .nameTooLong
      else d.follow (place ++ [part]) rest

/-- The place that a path means from the folder `home`. The place itself may be
empty, but all on the way to it must exist. -/
def locate (d : Disk) (home : Place) (p : Path) : Except Trouble Place :=
  if p.hasNull then .error .nullInPath
  else d.follow (if p.isAbsolute then [] else home) p.parts

/-- The node that a path means. -/
def find (d : Disk) (home : Place) (p : Path) : Except Trouble Node := do
  match d.node? (← d.locate home p) with
  | some node => .ok node
  | none => .error .missing

/-- Whether a path means a folder. -/
def isFolder (d : Disk) (home : Place) (p : Path) : Bool :=
  match d.find home p with
  | .ok .folder => true
  | _ => false

/-- The bytes of the file that a path means. -/
def read (d : Disk) (home : Place) (p : Path) : Except Trouble ByteArray := do
  match ← d.find home p with
  | .file bytes => .ok bytes
  | .folder => .error .isFolder

/-- The place of a file that may be put where `p` says: there is none, or a file. -/
def filePlace (d : Disk) (home : Place) (p : Path) : Except Trouble Place := do
  let place ← d.locate home p
  match d.node? place with
  | some .folder => .error .isFolder
  | _ => .ok place

/-- More bytes at the end of a file; a file that is gone gets none. -/
def append (d : Disk) (place : Place) (bytes : ByteArray) : Disk :=
  match d.node? place with
  | some (.file old) => d.put place (.file (old ++ bytes))
  | _ => d

/-- A new folder; the one around it must exist. -/
def makeFolder (d : Disk) (home : Place) (p : Path) : Except Trouble Disk := do
  let place ← d.locate home p
  match d.node? place with
  | some _ => .error .alreadyThere
  | none => .ok (d.put place .folder)

/-- A folder that is there already is as good as a new one. -/
def ensureFolder (d : Disk) (home : Place) (p : Path) : Except Trouble Disk :=
  match d.makeFolder home p with
  | .ok d' => .ok d'
  | .error why => if d.isFolder home p then .ok d else .error why

/-- The folder that a path means and all folders on the way to it, made where they
are missing. The disk is given back on failure too, since some may have been made. -/
def makeFolders (d : Disk) (home : Place) (anchor : Anchor) (parts : List String) :
    Except Trouble Unit × Disk :=
  let p : Path := ⟨anchor, parts⟩
  match d.makeFolder home p with
  | .ok d' => (.ok (), d')
  | .error .missing =>
    if h : parts = [] then (.error .missing, d)
    else
      have : parts.dropLast.length < parts.length := by
        have := List.length_pos_iff.2 h
        simp only [List.length_dropLast]; omega
      match makeFolders d home anchor parts.dropLast with
      | (.error why, d') => (.error why, d')
      | (.ok (), d') =>
        match d'.ensureFolder home p with
        | .ok d'' => (.ok (), d'')
        | .error why => (.error why, d')
  | .error why => if d.isFolder home p then (.ok (), d) else (.error why, d)
termination_by parts.length

/-- The order of places: by their names, the folder before what it holds. -/
def placeLe : Place → Place → Bool
  | [], _ => true
  | _ :: _, [] => false
  | a :: s, b :: t => if a = b then placeLe s t else decide (a < b)

/-- The files below a place, by the names from there, in order. -/
def filesBelow (d : Disk) (place : Place) : List (List String) :=
  let below := d.nodes.filterMap fun entry =>
    match entry.2 with
    | .file _ =>
      if place.isPrefixOf entry.1 && entry.1 != place then some (entry.1.drop place.length)
      else none
    | .folder => none
  below.mergeSort placeLe

end Disk

end ApiSurface
