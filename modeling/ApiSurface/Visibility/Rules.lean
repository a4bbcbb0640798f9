/-
ApiSurface.Visibility.Rules — which classes, members and annotations are public.

A `View` is a universe with everything that decides about publication. The rules
for classes are asked in a fixed order, and the first that speaks against a class
is the reason to leave it out. Only the last one reads metadata, so faulty
metadata matter for classes that all other rules let pass.

The annotations of a class are its own and the inherited ones of all classes and
interfaces above it; those of the platform are left out.
-/
import ApiSurface.Visibility.Classification
import ApiSurface.Visibility.Metadata

namespace ApiSurface

/-- The overloads left out by configuration, by class. An overload is written as its
name followed by its descriptor. -/
abbrev MethodExclusions := List (String × List String)

/-- A universe with what decides about publication. -/
structure View where
  known : Universe
  classification : Classification
  markers : Markers
  excludedMethods : MethodExclusions
  metadata : Option Metadata

/-- Why a class is left out. -/
inductive ExclusionReason where
  | internalPackage
  | external
  | unshownType
  | markedInternal
  | notVisible
  | localClass (place : String)
  | synthetic
  | syntheticKind
deriving DecidableEq

/-- The reason in words. -/
def ExclusionReason.message : ExclusionReason → String
  | internalPackage => "internal package"
  | external => "external class"
  | unshownType => "invisible annotation type"
  | markedInternal => "internal annotation"
  | notVisible => "not public or protected"
  | localClass place => "local class of " ++ place
  | synthetic => "synthetic class"
  | syntheticKind => "synthetic Kotlin class"

/-- The annotations on a class or member, those that are shown apart from others. -/
structure ShownAnnotations where
  visible : List String
  hidden : List String
deriving DecidableEq

/-- Names in order and each once, with the pinned one before all others. -/
def orderAnnotations (pinned : Option String) (names : List String) : List String :=
  let ordered := Names.sorted (Names.distinct names)
  ordered.filter (some · == pinned) ++ ordered.filter (some · != pinned)

namespace View

/-! ## 1. Classes -/

/-- The first reason against a class apart from its metadata. -/
def declaredReason? (v : View) (r : ClassRecord) : Option ExclusionReason :=
  if v.markers.isInternalPackage r.name then some .internalPackage
  else if r.isExternal then some .external
  else if r.isAnnotationType && !v.classification.shows r.name then some .unshownType
  else if v.classification.hasInternal r.annotations then some .markedInternal
  else if !Flags.isVisible r.modifiers then some .notVisible
  else
    match r.enclosing with
    | some place => some (.localClass place)
    | none => if r.isSynthetic then some .synthetic else none

/-- The first reason against a class, if there is one. -/
def exclusionReason? (v : View) (r : ClassRecord) : Except Fault (Option ExclusionReason) :=
  match v.declaredReason? r with
  | some reason => .ok (some reason)
  | none =>
    match v.metadata with
    | none => .ok none
    | some m => (m.isSynthetic r).map fun s => if s then some .syntheticKind else none

/-- Whether a class is public. The reason against a class of the target is logged. -/
def includesClass (v : View) (r : ClassRecord) : Report Fault Bool := do
  match ← Report.ofExcept (v.exclusionReason? r) with
  | none => return true
  | some reason =>
    if r.isExternal then return false
    else do
      Report.debug "filters" ("Skipping " ++ r.name ++ ": " ++ reason.message)
      return false

/-- The public ones of some classes, as they stand. -/
def selectFrom (v : View) : List ClassRecord → Report Fault (List ClassRecord)
  | [] => return []
  | r :: rest => do
    let included ← v.includesClass r
    let others ← v.selectFrom rest
    return if included then r :: others else others

/-- Classes in the order of their names. -/
def sortedByName (records : List ClassRecord) : List ClassRecord :=
  records.mergeSort fun a b => decide (a.name ≤ b.name)

/-- The public classes of what is known, in the order of their names. -/
def includedClasses (v : View) : Report Fault (List ClassRecord) :=
  return sortedByName (← v.selectFrom v.known.classes)

/-! ## 2. Annotations -/

/-- The beginnings of the names of platform annotations. -/
def platformPrefixes : List (List Char) := ["java.".toList, "kotlin.".toList]

/-- Whether an annotation belongs to the platform. -/
def isPlatform (name : String) : Bool :=
  platformPrefixes.any (·.isPrefixOf name.toList)

/-- The classes from which a class takes over annotations. -/
def ancestors (v : View) (r : ClassRecord) : List ClassRecord :=
  if r.isInterface then v.known.interfaces r
  else v.known.superclasses r ++ v.known.interfaces r

/-- The annotations of a class: its own, and the inherited ones of its ancestors. -/
def effectiveAnnotations (v : View) (r : ClassRecord) : List String :=
  r.annotations
    ++ ((v.ancestors r).flatMap (·.annotations)).filter v.classification.inherited.contains

/-- The annotations on the header of a class. Annotation types show none. -/
def classAnnotations (v : View) (r : ClassRecord) : ShownAnnotations :=
  if r.isAnnotationType then ⟨[], []⟩
  else
    let names := (v.effectiveAnnotations r).filter fun name => !isPlatform name
    { visible := orderAnnotations v.markers.doNotImplement (names.filter v.classification.shows)
      hidden := orderAnnotations none (names.filter fun name => !v.classification.shows name) }

/-- The annotations on a member. -/
def memberAnnotations (v : View) (m : Member) : ShownAnnotations where
  visible := orderAnnotations none (m.annotations.filter v.classification.shows)
  hidden := orderAnnotations none (m.annotations.filter fun name => !v.classification.shows name)

/-! ## 3. Members -/

/-- The superclass of all enum types. -/
def enumBase : String := "java.lang.Enum"

/-- A method with this character in its name has internal scope. -/
def internalScopeMark : Char := '$'

/-- Whether configuration leaves a method out. -/
def isExcludedMethod (v : View) (m : MethodRecord) : Bool :=
  match v.excludedMethods.lookup m.owner with
  | some overloads => overloads.contains (m.name ++ m.descriptor)
  | none => false

/-- Whether a method is a constructor of an enum type. Nothing can extend one, so
its constructors are never public. -/
def isEnumConstructor (v : View) (m : MethodRecord) : Bool :=
  m.isConstructor &&
    match v.known.record? m.owner with
    | some owner => v.known.extends? owner enumBase
    | none => false

/-- Whether a method is public. -/
def includesMethod (v : View) (m : MethodRecord) : Bool :=
  Flags.isVisible m.modifiers
    && Flags.within m.modifiers Flags.methodMask
    && !v.isExcludedMethod m
    && !v.classification.hasInternal m.annotations
    && !v.isEnumConstructor m
    && !m.name.toList.contains internalScopeMark

/-- Whether a field is public. -/
def includesField (v : View) (f : FieldRecord) : Bool :=
  Flags.isVisible f.modifiers
    && Flags.within f.modifiers Flags.fieldMask
    && !v.classification.hasInternal f.annotations

/-- The order of members: by name, and by descriptor where names are equal. -/
def memberLe (a b : Member) : Bool :=
  if a.name = b.name then decide (a.descriptor ≤ b.descriptor) else decide (a.name < b.name)

/-- The public methods of a class, in order. -/
def publicMethods (v : View) (r : ClassRecord) : List MethodRecord :=
  (r.methods.mergeSort fun a b => memberLe a.toMember b.toMember).filter v.includesMethod

/-- The public fields of a class, in order. -/
def publicFields (v : View) (r : ClassRecord) : List FieldRecord :=
  (r.fields.mergeSort fun a b => memberLe a.toMember b.toMember).filter v.includesField

end View

end ApiSurface
