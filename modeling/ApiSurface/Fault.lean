/-
ApiSurface.Fault — why a scan fails.

A `Fault` is a cause. Some causes are failures of the scan itself: an entry of
the class path cannot be opened, a class cannot be read or parsed, a descriptor
is malformed, metadata make no sense, the result cannot be written. They are
logged and reported. The others are not foreseen by the scan and end the run.
-/
import ApiSurface.Archive.Directory
import ApiSurface.ClassFile.Fault
import ApiSurface.Disk.Basic

namespace ApiSurface

/-- Why a class path entry, or a class in it, cannot be read. -/
inductive ReadFault where
  | host (why : Trouble)
  | archive (why : Archive.Flaw)
  /-- The archive was closed before. -/
  | closed
deriving DecidableEq

namespace ReadFault

/-- What is wrong, in words. -/
def message : ReadFault → String
  | host why => why.message
  | archive why => why.message
  | closed => "closed before"

/-- Whether the fault is one that a scan reports: the host refused, or the archive
is damaged. Damage to range-coded data is not foreseen. -/
def isReported : ReadFault → Bool
  | host .nullInPath => false
  | host _ => true
  | archive (.badData how) => how != .ranged
  | archive .damaged | archive .cutShort => true
  | archive .badOffset | archive .overlapping => true
  | archive .badName | archive .unsupported | archive .encrypted => false
  | archive .noSuchPlace | archive .nameless => false
  | closed => false

end ReadFault

/-- Why a scan, or a step of one, fails. -/
inductive Fault where
  /-- A class path entry cannot be opened. -/
  | cannotOpen (entry : Path) (why : ReadFault)
  /-- The bytes of a class cannot be read. -/
  | cannotRead (name : String) (target : Path) (why : ReadFault)
  /-- The bytes of a class are no class file. -/
  | cannotParse (name : String) (why : Malformed)
  /-- A member to be written has a malformed descriptor. -/
  | badDescriptor (target : Path) (why : Malformed)
  /-- The metadata of a class have a kind that is no integer. -/
  | unreadableKind (name : String) (kind : Value)
  /-- The result cannot be written. -/
  | cannotWrite (path : Path) (why : Trouble)
  /-- A class file or descriptor is at fault, outside of a scan. -/
  | classFile (why : ClassFault)
  /-- A class path entry is at fault in a way that a scan does not foresee. -/
  | reading (why : ReadFault)
  /-- The text to be written holds a surrogate. -/
  | unencodable
  /-- A path holds the null character. -/
  | nullInPath

namespace Fault

/-- Whether the fault is a failure of the scan, and not one that it does not foresee. -/
def isScanFailure : Fault → Bool
  | cannotOpen _ _ | cannotRead _ _ _ | cannotParse _ _ | badDescriptor _ _
  | unreadableKind _ _ | cannotWrite _ _ => true
  | classFile _ | reading _ | unencodable | nullInPath => false

/-- The name of the metadata element that holds the kind of a class. -/
def kindElement : String := "k"

/-- What is wrong, in words; the faults that a scan does not foresee have none. -/
def message : Fault → String
  | cannotOpen entry why => "Cannot open classpath entry " ++ entry.text ++ ": " ++ why.message
  | cannotRead name target why =>
    "Cannot read class " ++ name ++ " from " ++ target.text ++ ": " ++ why.message
  | cannotParse name why => "Cannot parse class " ++ name ++ ": " ++ why.message
  | badDescriptor target why =>
    "Malformed type descriptor in " ++ target.text ++ ": " ++ why.message
  | unreadableKind name kind =>
    "Failed to read Kotlin annotation on " ++ name ++ ": " ++ kindElement ++ "=" ++ kind.shown
  | cannotWrite path why => "Failed to write API file " ++ path.text ++ ": " ++ why.message
  | classFile (.malformed why) => why.message
  | classFile (.illTyped _) => ""
  | reading _ | unencodable | nullInPath => ""

end Fault

end ApiSurface
