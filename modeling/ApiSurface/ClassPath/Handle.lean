/-
ApiSurface.ClassPath.Handle — a scan target and the classes behind it.

A class is looked up in the target first, then in the class path entries in
order; the first definition wins, also when it cannot be read. `lookUp` answers
from the sources alone. `load` remembers every answer, of a class or of the
absence of one, but no failure, so it gives the same answers until the handle is
closed, and the remembered ones after that.
-/
import ApiSurface.ClassFile.Reader
import ApiSurface.ClassPath.Source
import ApiSurface.Log.Record

namespace ApiSurface

/-- A class that was found, and whether it was found outside the target. -/
structure Loaded where
  file : ClassFile
  isExternal : Bool

/-- Where the bytes of a class were found. -/
inductive Scope where
  | target
  | dependency
deriving DecidableEq

/-- An opened target with its class path, and the classes loaded before. -/
structure Handle where
  target : Path
  /-- The target's own classes. -/
  own : Source
  /-- The class path entries, in order. -/
  dependencies : List Source
  loaded : List (String × Option Loaded)

namespace Handle

/-! ## 1. Opening -/

/-- The fault of an entry that cannot be opened. -/
def openFault (entry : Path) (why : ReadFault) : Fault :=
  if why.isReported then .cannotOpen entry why else .reading why

/-- An opened entry, or the fault of it. -/
def openEntry (d : Disk) (home : Place) (entry : Path) : Except Fault Source :=
  (Source.openAt d home entry).mapError (openFault entry)

/-- Opens the class path in order, and then the target. -/
def resolve (d : Disk) (home : Place) (target : Path) (classpath : List Path) :
    Report Fault Handle := do
  let dependencies ← Report.ofExcept (classpath.mapM (openEntry d home))
  let own ← Report.ofExcept (openEntry d home target)
  Report.debug "classpath" ("Resolved " ++ target.text ++ " against "
    ++ toString dependencies.length ++ " classpath entries")
  return ⟨target, own, dependencies, []⟩

/-- The names of the target's classes, in order. -/
def targetNames (h : Handle) : List String :=
  Names.sorted (Names.distinct h.own.names)

/-- The names of the classes of the class path, each once. -/
def dependencyNames (h : Handle) : List String :=
  Names.distinct (h.dependencies.flatMap Source.names)

/-- The names of all classes, each once. -/
def names (h : Handle) : List String :=
  Names.distinct (h.own.names ++ h.dependencies.flatMap Source.names)

/-! ## 2. Looking classes up -/

/-- The bytes of a class in the first of some sources that defines it. -/
def findIn (d : Disk) (home : Place) (name : String) :
    List Source → Except ReadFault (Option (List UInt8))
  | [] => .ok none
  | source :: rest => do
    match ← source.read d home name with
    | some bytes => return some bytes
    | none => findIn d home name rest

/-- The bytes of a class, and where they were found. -/
def find (d : Disk) (home : Place) (h : Handle) (name : String) :
    Except ReadFault (Option (List UInt8 × Scope)) := do
  match ← h.own.read d home name with
  | some bytes => return some (bytes, .target)
  | none => return (← findIn d home name h.dependencies).map (·, .dependency)

/-- The class that some bytes hold, as a scan reads it. -/
def parsed (name : String) (bytes : List UInt8) (scope : Scope) : Except Fault Loaded :=
  match ClassFile.parse bytes with
  | .ok file => .ok ⟨file, scope != .target⟩
  | .error (.malformed why) => .error (.cannotParse name why)
  | .error (.illTyped why) => .error (.classFile (.illTyped why))

/-- The class of a name, if the target or the class path defines it. -/
def lookUp (d : Disk) (home : Place) (h : Handle) (name : String) :
    Except Fault (Option Loaded) :=
  match h.find d home name with
  | .error why =>
    .error (if why.isReported then .cannotRead name h.target why else .reading why)
  | .ok none => .ok none
  | .ok (some (bytes, scope)) => (parsed name bytes scope).map some

/-- The class of a name, from memory if it was loaded before. -/
def load (d : Disk) (home : Place) (h : Handle) (name : String) :
    Except Fault (Option Loaded) × Handle :=
  match h.loaded.lookup name with
  | some found => (.ok found, h)
  | none =>
    match h.lookUp d home name with
    | .ok found => (.ok found, { h with loaded := (name, found) :: h.loaded })
    | .error why => (.error why, h)

/-- The handle after all its sources are closed. -/
def close (h : Handle) : Handle :=
  { h with own := h.own.close, dependencies := h.dependencies.map Source.close }

end Handle

end ApiSurface
