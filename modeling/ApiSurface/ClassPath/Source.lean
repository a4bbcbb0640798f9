/-
ApiSurface.ClassPath.Source — entries of a class path.

A source is an archive or a folder. Both map class names to class files: an
archive takes the first entry of each name in the order of its directory, a
folder the first file in the order of places. The bytes of an archive are held
from the moment it is opened, and those of a folder are read when they are
asked for.
-/
import ApiSurface.ClassPath.Names
import ApiSurface.Fault

namespace ApiSurface

/-- An opened class path entry. -/
inductive Source where
  /-- An archive, and the entry of each class in it. -/
  | archive (contents : Archive) (classes : List (String × String)) (isClosed : Bool)
  /-- A folder, and the file of each class in it. -/
  | folder (classes : List (String × Path))

namespace Source

/-- The classes that entries define, each with the first entry that defines it. -/
def classesOf (entries : List String) : List (String × String) :=
  Names.firstOfEach (entries.filterMap fun entry => (classDefinedBy? entry).map (·, entry))

/-- An archive as a source. Every entry must have a name, because its end tells folders
from files. -/
def ofArchive (a : Archive) : Except ReadFault Source :=
  if a.entries.any (·.name.isEmpty) then .error (.archive .nameless)
  else .ok (.archive a (classesOf ((a.entries.filter fun e => !e.isFolder).map (·.name))) false)

/-- The files of a folder at `p` as a source, given by their names from there. -/
def ofFolder (p : Path) (files : List (List String)) : Source :=
  .folder <| Names.firstOfEach <| files.filterMap fun parts =>
    (classDefinedBy? ("/".intercalate parts)).map (·, { p with parts := p.parts ++ parts })

/-- Opens what a path means: a folder, or else a file that must be an archive. -/
def openAt (d : Disk) (home : Place) (p : Path) : Except ReadFault Source :=
  match d.locate home p with
  | .error why => .error (.host why)
  | .ok place =>
    match d.node? place with
    | none => .error (.host .missing)
    | some .folder => .ok (ofFolder p (d.filesBelow place))
    | some (.file bytes) =>
      match Archive.ofBytes bytes with
      | .ok a => ofArchive a
      | .error why => .error (.archive why)

/-- The names of the classes in a source. -/
def names : Source → List String
  | .archive _ classes _ => classes.map (·.1)
  | .folder classes => classes.map (·.1)

/-- The bytes of a class, if the source defines it. -/
def read (d : Disk) (home : Place) (name : String) : Source → Except ReadFault (Option (List UInt8))
  | .archive a classes isClosed =>
    match classes.lookup name with
    | none => .ok none
    | some entry =>
      if isClosed then .error .closed
      else
        match a.entry? entry with
        | none => .ok none
        | some e =>
          match a.readEntry e with
          | .ok bytes => .ok (some bytes)
          | .error why => .error (.archive why)
  | .folder classes =>
    match classes.lookup name with
    | none => .ok none
    | some p =>
      match d.read home p with
      | .ok bytes => .ok (some bytes.data.toList)
      | .error why => .error (.host why)

/-- A source that is no longer needed. A folder holds nothing open. -/
def close : Source → Source
  | .archive a classes _ => .archive a classes true
  | .folder classes => .folder classes

end Source

end ApiSurface
