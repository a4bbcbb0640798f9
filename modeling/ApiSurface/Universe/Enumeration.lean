/-
ApiSurface.Universe.Enumeration — the universe of a target.

A `ClassTable` tells what a scan can see: the names of the target's own classes,
the names of all classes that are defined anywhere, and for each of these the
class, or why it cannot be read. Enumeration takes the own classes that are not
left out, and then every class that is reached from them by references, in the
order in which the references are met. Own classes that were not left out are
candidates, and so are external ones. An own class that was left out can still
be reached, and is then no candidate.

Each step either drops a pending name or reads a class that was not read before,
so enumeration ends whatever the classes refer to.
-/
import ApiSurface.ClassPath.Handle
import ApiSurface.Universe.Basic
import ApiSurface.Universe.Exclusion

namespace ApiSurface

/-- What a scan can see. -/
structure ClassTable where
  /-- The names of the target's own classes, in order. -/
  own : List String
  /-- The names of all classes that are defined. -/
  defined : List String
  /-- The class with a name. -/
  lookUp : String → Except Fault (Option Loaded)

/-- What a scan sees through a handle. -/
def Handle.table (d : Disk) (home : Place) (h : Handle) : ClassTable where
  own := h.targetNames
  defined := h.names
  lookUp := h.lookUp d home

namespace ClassTable

/-- The record of a name: that of its class, or a placeholder of the suggested kind. -/
def record (t : ClassTable) (name : String) (kind : ClassKind) : Except Fault ClassRecord :=
  if t.defined.contains name then
    (t.lookUp name).map fun
      | some loaded => ClassRecord.ofClassFile loaded.isExternal loaded.file
      | none => ClassRecord.placeholder name kind
  else .ok (ClassRecord.placeholder name kind)

end ClassTable

namespace Universe

/-- Adds the classes that pending references name, and those that they refer to.
`unread` are the defined names without a record. -/
def close (t : ClassTable) (unread : List String) (pending : List (String × ClassKind))
    (u : Universe) : Except Fault Universe :=
  match pending with
  | [] => .ok u
  | (name, kind) :: rest =>
    if u.knows name then close t unread rest u
    else if _h : name ∈ unread then
      match t.record name kind with
      | .error why => .error why
      | .ok r =>
        close t (unread.erase name) (rest ++ r.references) (u.add name r r.isExternal)
    else close t unread rest (u.add name (.placeholder name kind) true)
termination_by (unread.length, pending.length)
decreasing_by
  · exact Prod.Lex.right _ (by simp)
  · refine Prod.Lex.left _ _ ?_
    have := List.length_erase_of_mem _h
    have := List.length_pos_of_mem _h
    omega
  · exact Prod.Lex.right _ (by simp)

/-- Adds the target's own classes that are not left out, and gives the universe with
the references that they make. -/
def addOwn (t : ClassTable) (x : Exclusion) :
    List String → Universe → List (String × ClassKind) →
      Report Fault (Universe × List (String × ClassKind))
  | [], u, references => return (u, references)
  | name :: rest, u, references =>
    if x.covers name then do
      Report.debug "universe" ("Excluded by pattern: " ++ name)
      addOwn t x rest u references
    else do
      let r ← Report.ofExcept (t.record name .ordinary)
      addOwn t x rest (u.add name r true) (references ++ r.references)

/-- The count of candidates that were found in the target. -/
def ownCount (u : Universe) : Nat := (u.classes.filter fun r => !r.isExternal).length

/-- The universe of a target. -/
def enumerate (t : ClassTable) (x : Exclusion) (target : Path) : Report Fault Universe := do
  let (admitted, references) ← addOwn t x t.own empty []
  let unread := t.defined.filter fun name => !admitted.knows name
  let u ← Report.ofExcept (close t unread references admitted)
  Report.debug "universe" ("Enumerated " ++ toString u.records.length ++ " classes ("
    ++ toString u.ownCount ++ " from the artifact) for " ++ target.text)
  return u

end Universe

end ApiSurface
