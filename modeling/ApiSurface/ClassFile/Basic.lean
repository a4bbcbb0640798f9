/-
ApiSurface.ClassFile.Basic — the declared surface of one class.

A `ClassFile` holds what a class declares: its names, flags, members and
annotations. Code and debugging information are not part of it. Class names are
binary names, with dots between packages and dollar signs before nested names.
-/
import ApiSurface.ClassFile.Value

namespace ApiSurface

/-- A declared field. -/
structure FieldInfo where
  flags : Nat
  name : String
  descriptor : String
  signature : Option String
  /-- The compile-time constant of the field. -/
  constant : Option Value
  annotations : List Annotation

/-- A declared method or constructor. -/
structure MethodInfo where
  flags : Nat
  name : String
  descriptor : String
  signature : Option String
  annotations : List Annotation
  /-- The default of an annotation element. -/
  default : Option Value

/-- What a class file says about a nested class. -/
structure InnerClass where
  inner : String
  outer : Option String
  simpleName : Option String
  flags : Nat

/-- The class, and maybe the method, in whose body a class is declared. -/
structure Enclosing where
  owner : String
  /-- The name and descriptor of the method, if there is one. -/
  method : Option (String × String)

/-- The declared surface of a class. -/
structure ClassFile where
  major : Nat
  minor : Nat
  flags : Nat
  name : String
  superclass : Option String
  interfaces : List String
  signature : Option String
  fields : List FieldInfo
  methods : List MethodInfo
  annotations : List Annotation
  innerClasses : List InnerClass
  enclosing : Option Enclosing

/-! ## Names -/

/-- The binary name of an internal name, which has slashes in place of dots. -/
def binaryName (internal : String) : String :=
  String.ofList (internal.toList.map fun c => if c = '/' then '.' else c)

/-- The binary name of the class that an object descriptor names; a text of any
other form is taken as the name itself. -/
def binaryNameOfDescriptor (descriptor : String) : String :=
  match descriptor.toList with
  | 'L' :: rest =>
    if rest.getLast? = some ';' then binaryName (String.ofList rest.dropLast)
    else binaryName descriptor
  | _ => binaryName descriptor

end ApiSurface
