/-
ApiSurface.Universe.Record — what a scan knows of one class.

A record holds the part of a class file that decides about publication: the
effective modifiers, the references to other classes, and the members. A class
that no source defines has a placeholder: an external record without references.
-/
import ApiSurface.ClassFile.Basic
import ApiSurface.ClassFile.Flags
import ApiSurface.ClassPath.Names

namespace ApiSurface

/-! ## 1. Records -/

/-- The kinds of classes. -/
inductive ClassKind where
  | ordinary | interface | annotationType | enum
deriving DecidableEq

/-- The keyword of a kind. -/
def ClassKind.name : ClassKind → String
  | ordinary => "class"
  | interface => "interface"
  | annotationType => "annotation"
  | enum => "enum"

/-- What methods and fields have in common. -/
structure Member where
  name : String
  descriptor : String
  modifiers : Nat
  /-- The class that declares the member. -/
  owner : String
  /-- The annotations on the member, each once. -/
  annotations : List String
  signature : Option String

/-- A declared method or constructor. -/
structure MethodRecord extends Member

/-- A declared field. -/
structure FieldRecord extends Member where
  /-- The compile-time constant. -/
  constant : Option Value

/-- The name of constructors. -/
def constructorName : String := "<init>"

/-- Whether a method is a constructor. -/
def MethodRecord.isConstructor (m : MethodRecord) : Bool := m.name == constructorName

/-- What a scan knows of one class. -/
structure ClassRecord where
  name : String
  kind : ClassKind
  /-- The effective modifiers: for a nested class those of its nesting. -/
  modifiers : Nat
  superclass : Option String
  interfaces : List String
  /-- The annotations on the class, each once. -/
  annotations : List String
  methods : List MethodRecord
  fields : List FieldRecord
  /-- Whether the class was found outside of the target, or not at all. -/
  isExternal : Bool
  isSynthetic : Bool
  /-- The class and method whose body declares the class. -/
  enclosing : Option String
  /-- The element values of the annotations, by annotation. -/
  annotationValues : List (String × List (String × Value))
  signature : Option String

namespace ClassRecord

/-- Whether a record is of an annotation type. -/
def isAnnotationType (r : ClassRecord) : Bool := r.kind = .annotationType

/-- Whether a record is of an interface; annotation types are interfaces. -/
def isInterface (r : ClassRecord) : Bool := r.kind = .interface || r.kind = .annotationType

/-- The package of a class. -/
def package (r : ClassRecord) : String := Names.qualifier r.name

/-- The record of a class that no source defines. -/
def placeholder (name : String) (kind : ClassKind) : ClassRecord where
  name := name
  kind := kind
  modifiers := 0
  superclass := none
  interfaces := []
  annotations := []
  methods := []
  fields := []
  isExternal := true
  isSynthetic := false
  enclosing := none
  annotationValues := []
  signature := none

/-! ## 2. The record of a class file -/

/-- The kind that access flags tell. -/
def kindOf (flags : Nat) : ClassKind :=
  if Flags.has flags Flags.isAnnotationType then .annotationType
  else if Flags.has flags Flags.isInterface then .interface
  else if Flags.has flags Flags.isEnum then .enum
  else .ordinary

/-- The effective modifiers of a class: what the first entry about the class itself
among its nested classes says, or else its own flags. -/
def modifiersOf (c : ClassFile) : Nat :=
  match c.innerClasses.find? (·.inner == c.name) with
  | some entry => entry.flags
  | none => c.flags

/-- The name that stands for an initialiser in place of a method. -/
def initializerName : String := "<clinit>"

/-- The written form of the place that encloses a class. -/
def enclosingText (e : Enclosing) : String :=
  let method := match e.method with
    | some (name, _) => if name = "" then initializerName else name
    | none => initializerName
  e.owner ++ "." ++ method

/-- The types of annotations, each once. -/
def annotationTypes (annotations : List Annotation) : List String :=
  Names.distinct (annotations.map (·.type))

/-- The record of a declared method. -/
def methodOf (owner : String) (m : MethodInfo) : MethodRecord where
  name := m.name
  descriptor := m.descriptor
  modifiers := m.flags
  owner := owner
  annotations := annotationTypes m.annotations
  signature := m.signature

/-- The record of a declared field. -/
def fieldOf (owner : String) (f : FieldInfo) : FieldRecord where
  name := f.name
  descriptor := f.descriptor
  modifiers := f.flags
  owner := owner
  annotations := annotationTypes f.annotations
  signature := f.signature
  constant := f.constant

/-- The record of a class file. Of two annotations of one type the later one gives
the element values. -/
def ofClassFile (isExternal : Bool) (c : ClassFile) : ClassRecord where
  name := c.name
  kind := kindOf c.flags
  modifiers := modifiersOf c
  superclass := c.superclass
  interfaces := c.interfaces
  annotations := annotationTypes c.annotations
  methods := c.methods.map (methodOf c.name)
  fields := c.fields.map (fieldOf c.name)
  isExternal := isExternal
  isSynthetic := Flags.has (c.flags ||| modifiersOf c) Flags.isSynthetic
  enclosing := c.enclosing.map enclosingText
  annotationValues := c.annotations.foldl (fun values a => putValue a.type a.values values) []
  signature := c.signature

/-! ## 3. References -/

/-- The superclass of a record, if it names one. -/
def superclassName? (r : ClassRecord) : Option String :=
  r.superclass.filter (· != "")

/-- The annotations on the members of a class. -/
def memberAnnotations (r : ClassRecord) : List String :=
  r.methods.flatMap (·.annotations) ++ r.fields.flatMap (·.annotations)

/-- The classes that a record refers to, each with the kind that the place of the
reference suggests. -/
def references (r : ClassRecord) : List (String × ClassKind) :=
  r.superclassName?.toList.map (·, .ordinary)
    ++ r.interfaces.map (·, .interface)
    ++ (Names.sorted (Names.distinct (r.annotations ++ r.memberAnnotations))).map (·, .annotationType)

end ClassRecord

end ApiSurface
