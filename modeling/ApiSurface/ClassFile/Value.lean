/-
ApiSurface.ClassFile.Value — constants and annotation element values.

A value is what a field constant, an annotation element or the default of an
annotation element holds. Character values are texts of one code point, since
they may be surrogates. Both precisions of floating point are held as doubles.

`Value.shown` writes a value for a diagnostic, with every text in quotes.
-/
import ApiSurface.Text.Quoted
import ApiSurface.Number.Decimal
import ApiSurface.Number.Integer

namespace ApiSurface

open Number (Double)

/-- A constant or an annotation element value. -/
inductive Value where
  /-- The absence of a value. -/
  | nothing
  | boolean (b : Bool)
  | integer (n : Int)
  | real (x : Double)
  | text (t : Text)
  | list (items : List Value)
  /-- A constant of an enum type. -/
  | enumConstant (type constant : String)
  /-- A class named by its descriptor. -/
  | classLiteral (descriptor : String)
  | annotationLiteral (type : String) (isVisible : Bool) (values : List (String × Value))

/-- One annotation with its element values, in the order of first occurrence. -/
structure Annotation where
  type : String
  /-- Whether the annotation is kept for reflection at run time. -/
  isVisible : Bool
  values : List (String × Value)

/-- An element value put into a list of named values: a new name goes to the
end, and a known one keeps its place and takes the new value. -/
def putValue {α : Type} (name : String) (value : α) : List (String × α) → List (String × α)
  | [] => [(name, value)]
  | (n, v) :: rest => if n = name then (n, value) :: rest else (n, v) :: putValue name value rest

namespace Value

/-- Words joined by a separator. -/
def commaSeparated (words : List String) : String :=
  ", ".intercalate words

/-- The words for truth values in diagnostics. -/
def shownBoolean (b : Bool) : String := if b then "True" else "False"

mutual

/-- A value as diagnostics show it. -/
def shown : Value → String
  | .nothing => "None"
  | .boolean b => shownBoolean b
  | .integer n => Number.integerText n
  | .real x => x.text
  | .text t => Text.quoted t
  | .list items => "[" ++ commaSeparated (shownItems items) ++ "]"
  | .enumConstant type constant =>
    "EnumConstant(type_name=" ++ Text.quotedString type ++ ", const_name="
      ++ Text.quotedString constant ++ ")"
  | .classLiteral descriptor => "ClassLiteral(descriptor=" ++ Text.quotedString descriptor ++ ")"
  | .annotationLiteral type isVisible values =>
    "AnnotationInfo(type_name=" ++ Text.quotedString type ++ ", values=\x7b"
      ++ commaSeparated (shownValues values) ++ "\x7d, visible=" ++ shownBoolean isVisible ++ ")"

/-- The items of a list, each as diagnostics show it. -/
def shownItems : List Value → List String
  | [] => []
  | v :: rest => shown v :: shownItems rest

/-- Named values, each as diagnostics show it. -/
def shownValues : List (String × Value) → List String
  | [] => []
  | (name, v) :: rest => (Text.quotedString name ++ ": " ++ shown v) :: shownValues rest

end

end Value

end ApiSurface
