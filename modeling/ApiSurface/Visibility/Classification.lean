/-
ApiSurface.Visibility.Classification — the annotations that matter to a scan.

An annotation type is internal when its name says so, and one annotation is
internal in any case. Invisible are the internal ones, those that configuration
lists, and those that carry an internal one. An annotation type is inherited
when it carries the marker of inheritance. The three lists are in order and
without repetitions, so they depend on nothing but which names they hold.
-/
import ApiSurface.Log.Record
import ApiSurface.Universe.Basic
import ApiSurface.Visibility.Markers

namespace ApiSurface

/-- The annotations that matter to a scan, by what they mean. -/
structure Classification where
  /-- Annotations that mark internal code. -/
  internal : List String
  /-- Annotations that are not shown. -/
  invisible : List String
  /-- Annotations that pass from a class to those that extend it. -/
  inherited : List String
deriving DecidableEq

namespace Classification

/-- The annotation that makes an annotation type inherited. -/
def inheritanceMarker : String := "java.lang.annotation.Inherited"

/-- Names as a set: in order, and each once. -/
def nameSet (names : List String) : List String := Names.sorted (Names.distinct names)

/-- The internal annotations of a universe. -/
def internalNames (u : Universe) (m : Markers) : List String :=
  m.defaultInternal :: (u.annotations.map (·.name)).filter m.marksInternal

/-- The classification of a universe. -/
def ofUniverse (u : Universe) (m : Markers) : Classification :=
  let internal := internalNames u m
  let carriers := u.annotations.filter fun r => r.annotations.any internal.contains
  let inheriting := u.annotations.filter fun r => r.annotations.contains inheritanceMarker
  { internal := nameSet internal
    invisible := nameSet (m.unshown ++ internal ++ carriers.map (·.name))
    inherited := nameSet (inheriting.map (·.name)) }

/-- Whether an annotation is shown. -/
def shows (c : Classification) (name : String) : Bool := !c.invisible.contains name

/-- Whether one of some annotations marks internal code. -/
def hasInternal (c : Classification) (names : List String) : Bool :=
  names.any c.internal.contains

/-- Leaves the classification in the log. -/
def report {ε : Type} (c : Classification) : Report ε Unit := do
  Report.info "classifier" "Annotations:"
  Report.info "classifier" ("- Inherited: " ++ Names.bracketed c.inherited)
  Report.info "classifier" ("- Internal:  " ++ Names.bracketed c.internal)
  Report.info "classifier" ("- Invisible: " ++ Names.bracketed c.invisible)

end Classification

end ApiSurface
