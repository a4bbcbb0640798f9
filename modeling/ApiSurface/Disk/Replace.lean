/-
ApiSurface.Disk.Replace — replacing a file all at once.

The new content goes into a temporary file beside the old one, which then takes
its place. The host may refuse each step, and whatever happens no temporary file
is left and the old content is never seen in part. Folders that were made on the
way stay.
-/
import ApiSurface.Disk.Basic
import ApiSurface.Text.Hex

namespace ApiSurface

/-- The steps of a replacement. -/
inductive ReplaceStep where
  | makeFolders | createTemporary | fill | rename
deriving DecidableEq

/-- Where a program runs. -/
structure Host where
  /-- The folder from which relative paths start. -/
  home : Place
  /-- The user's own folder, which a tilde stands for. -/
  personal : Place
  /-- The steps that the host refuses although the disk would allow them. -/
  refuses : ReplaceStep → Option Trouble

/-- A host that refuses nothing. -/
def Host.willing (home personal : Place) : Host := ⟨home, personal, fun _ => none⟩

/-- What the disk answers to a step, unless the host refuses it. -/
def Host.attempt {α : Type} (h : Host) (step : ReplaceStep) (answer : Except Trouble α) :
    Except Trouble α :=
  match h.refuses step with
  | some why => .error why
  | none => answer

/-- Why a file cannot be replaced. -/
inductive ReplaceFault where
  | host (why : Trouble)
  /-- The content is a text that has no bytes. -/
  | unencodable
deriving DecidableEq

namespace Disk

/-- A name for a temporary file beside the file of a given name. -/
def temporaryName (name : String) (n : Nat) : String :=
  "." ++ name ++ "." ++ String.ofList (Text.Hex.padded 8 n) ++ ".tmp"

/-- A place beside the file that `p` means where nothing is yet: the first of `left`
numbered names from `n` on. -/
def freePlace (d : Disk) (home : Place) (p : Path) (n : Nat) : Nat → Except Trouble Place
  | 0 => .error .alreadyThere
  | left + 1 => do
    let place ← d.locate home (p.parent.child (temporaryName p.name n))
    if (d.node? place).isNone then .ok place else d.freePlace home p (n + 1) left

/-- A place for a temporary file beside the file that `p` means. One of as many names
as the disk has nodes, and one more, is free. -/
def temporaryPlace (d : Disk) (home : Place) (p : Path) : Except Trouble Place :=
  d.freePlace home p 0 (d.nodes.length + 1)

/-- Fills a temporary file and puts it in the place of the file that `p` means. On
failure the temporary file is gone. -/
def fillAndRename (d : Disk) (h : Host) (temporary : Place) (p : Path)
    (content : Option ByteArray) : Except ReplaceFault Unit × Disk :=
  match content with
  | none => (.error .unencodable, d.remove temporary)
  | some bytes =>
    match h.attempt .fill (.ok ()) with
    | .error why => (.error (.host why), d.remove temporary)
    | .ok () =>
      match h.attempt .rename (d.filePlace h.home p) with
      | .error why => (.error (.host why), d.remove temporary)
      | .ok place => (.ok (), (d.remove temporary).put place (.file bytes))

/-- Makes the file that `p` means hold the given content, which is missing for a text
that has no bytes. -/
def replaceFile (d : Disk) (h : Host) (p : Path) (content : Option ByteArray) :
    Except ReplaceFault Unit × Disk :=
  match h.attempt .makeFolders (.ok ()) with
  | .error why => (.error (.host why), d)
  | .ok () =>
    match d.makeFolders h.home p.anchor p.parent.parts with
    | (.error why, d') => (.error (.host why), d')
    | (.ok (), d') =>
      match h.attempt .createTemporary (d'.temporaryPlace h.home p) with
      | .error why => (.error (.host why), d')
      | .ok temporary =>
        (d'.put temporary (.file .empty)).fillAndRename h temporary p content

end Disk

end ApiSurface
