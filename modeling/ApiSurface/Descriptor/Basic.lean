/-
ApiSurface.Descriptor.Basic — the words of types in source text.

Primitive types have keywords, and a class that lies directly in `java.lang` goes without
a qualifier.
-/

namespace ApiSurface

/-- The package whose classes go without a qualifier. -/
def languagePackage : List Char := "java.lang.".toList

/-- A class name without its qualifier, if that is `java.lang` itself. -/
def simplifyName (name : List Char) : List Char :=
  if languagePackage.isPrefixOf name && !(name.drop languagePackage.length).contains '.'
  then name.drop languagePackage.length else name

/-- A class name without its qualifier, if that is `java.lang` itself. -/
def simplifyTypeName (name : String) : String :=
  String.ofList (simplifyName name.toList)

/-- The keyword of the primitive type with a given letter. -/
def keyword? : Char → Option String
  | 'B' => some "byte"
  | 'C' => some "char"
  | 'D' => some "double"
  | 'F' => some "float"
  | 'I' => some "int"
  | 'J' => some "long"
  | 'S' => some "short"
  | 'Z' => some "boolean"
  | 'V' => some "void"
  | _ => none

end ApiSurface
