/-
ApiSurface.Disk.Path — names of places on a disk.

A path is relative, or starts at the root; a path that starts with exactly two
slashes keeps both of them in its written form. Empty parts and single dots are
dropped when a path is read, and double dots are kept: what they mean depends on
the disk. `resolved` takes them away, which is right where no part of a path is
a link.
-/

namespace ApiSurface

/-- Where a path starts. -/
inductive Anchor where
  | here
  | root
  /-- The root, written with two slashes. -/
  | doubleRoot
deriving DecidableEq

/-- A path: where it starts, and the parts behind. -/
structure Path where
  anchor : Anchor
  parts : List String
deriving DecidableEq

/-- The pieces of a text between occurrences of a character. -/
def splitAtChar (c : Char) : List Char → List (List Char)
  | [] => [[]]
  | d :: rest =>
    if d = c then [] :: splitAtChar c rest
    else match splitAtChar c rest with
      | [] => [[d]]
      | piece :: pieces => (d :: piece) :: pieces

namespace Path

/-- Where a written path starts: two slashes are kept, one or more than two are the root. -/
def anchorOf : List Char → Anchor
  | '/' :: '/' :: '/' :: _ => .root
  | '/' :: '/' :: _ => .doubleRoot
  | '/' :: _ => .root
  | _ => .here

/-- The path that a text spells. -/
def ofString (s : String) : Path where
  anchor := anchorOf s.toList
  parts := ((splitAtChar '/' s.toList).map String.ofList).filter fun part =>
    part != "" && part != "."

/-- The written form of where a path starts. -/
def anchorText : Anchor → String
  | .here => ""
  | .root => "/"
  | .doubleRoot => "//"

/-- The written form of a path. -/
def text (p : Path) : String :=
  if p.anchor = .here && p.parts.isEmpty then "."
  else anchorText p.anchor ++ "/".intercalate p.parts

/-- The last part of a path, or the empty name. -/
def name (p : Path) : String := p.parts.getLast?.getD ""

/-- The path without its last part. -/
def parent (p : Path) : Path := { p with parts := p.parts.dropLast }

/-- Whether a path starts at the root. -/
def isAbsolute (p : Path) : Bool := p.anchor != .here

/-- A path seen from another; an absolute path is the same from everywhere. -/
def join (base p : Path) : Path :=
  if p.isAbsolute then p else { base with parts := base.parts ++ p.parts }

/-- A path with one more part. -/
def child (base : Path) (part : String) : Path := { base with parts := base.parts ++ [part] }

/-- Parts without double dots: each takes away the part before it, if there is one. -/
def withoutDots (parts : List String) : List String :=
  parts.foldl (fun kept part => if part = ".." then kept.dropLast else kept ++ [part]) []

/-- The path from the root that `p` means when it is seen from the folder `home`. -/
def resolved (home : List String) (p : Path) : Path where
  anchor := .root
  parts := withoutDots ((if p.isAbsolute then [] else home) ++ p.parts)

/-- The path of a place under the folder `home`, seen from there. -/
def relativeTo? (home : List String) (p : Path) : Option Path :=
  if home.isPrefixOf p.parts then some ⟨.here, p.parts.drop home.length⟩ else none

/-- The path that `p` means to a user with the given folder: a tilde as the first part of
a relative path stands for that folder. A tilde with a name behind it stands for the
folder of another user, and none is known. -/
def expanded? (personal : List String) (p : Path) : Option Path :=
  match p.anchor, p.parts with
  | .here, first :: rest =>
    if first = "~" then some ⟨.root, personal ++ rest⟩
    else if first.toList.head? = some '~' then none
    else some p
  | _, _ => some p

/-- Whether a path holds the null character, which no disk allows. -/
def hasNull (p : Path) : Bool :=
  p.parts.any fun part => part.toList.contains (Char.ofNat 0)

end Path

end ApiSurface
