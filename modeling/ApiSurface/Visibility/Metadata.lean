/-
ApiSurface.Visibility.Metadata — the compiler's note on the kind of a class.

The compiler of one language marks every class that it makes with an annotation,
whose element `k` holds the kind of the class. Kind 3 is a class without a
counterpart in source text. The note is looked at only where the annotation type
itself is defined and declares the element.
-/
import ApiSurface.Universe.Enumeration

namespace ApiSurface

/-- How to read the kinds of classes. -/
structure Metadata where
  /-- The kind of a class whose note does not tell it. -/
  defaultKind : Value

namespace Metadata

/-- The annotation that holds the note. -/
def annotationName : String := "kotlin.Metadata"

/-- The descriptor of the element that holds the kind. -/
def elementDescriptor : String := "()I"

/-- The kind of classes without a counterpart in source text. -/
def syntheticKind : Int := 3

/-- The default kind of an annotation type that declares none. -/
def fallbackKind : Value := .integer 1

/-- The metadata that the classes of a target have, if any. -/
def resolve (t : ClassTable) : Report Fault (Option Metadata) := do
  match ← Report.ofExcept (t.lookUp annotationName) with
  | none =>
    Report.debug "metadata"
      (annotationName ++ " is not on the classpath; skipping synthetic-kind checks")
    return none
  | some loaded =>
    match loaded.file.methods.find? fun m =>
        m.name == Fault.kindElement && m.descriptor == elementDescriptor with
    | some element => return some ⟨element.default.getD fallbackKind⟩
    | none =>
      Report.debug "metadata" (annotationName ++ " has no " ++ Fault.kindElement
        ++ "() element; skipping synthetic-kind checks")
      return none

/-- The kind of a class; a class without a note has kind 0. -/
def kindOf (m : Metadata) (r : ClassRecord) : Except Fault Int :=
  match r.annotationValues.lookup annotationName with
  | none => .ok 0
  | some values =>
    match (values.lookup Fault.kindElement).getD m.defaultKind with
    | .integer n => .ok n
    | other => .error (.unreadableKind r.name other)

/-- Whether a class has no counterpart in source text. -/
def isSynthetic (m : Metadata) (r : ClassRecord) : Except Fault Bool :=
  (m.kindOf r).map (· == syntheticKind)

end Metadata

end ApiSurface
