/-
ApiSurface.Proofs.Descriptor.Grammar — which texts are types, and how they are written.

The types are trees (`JavaType`), and every tree has two written forms. `spell` gives the
form of class files. `render` gives the form of source text, clause by clause: keywords
for primitive types, brackets behind the element of an array, the name of a variable,
dots in package names, a dollar sign before a nested name, question marks with their
bounds, and no qualifier for a class that lies directly in `java.lang`.

`JavaType.spell` writes a tree down, and the trees are those of the grammar: a name
reaches up to the next of some characters, so it has at least one character and none
of these (`IsName`). What the grammar says of a type is then `IsWellFormed`, and a
text spells a type if it is the spelled form, alone or before the exceptions of a
method (`JavaType.SpelledBy`).

A method type has more than one form: type parameters may be missing, or be an empty
row in brackets. Of two type parameters in a row the first one may end in an empty
bound. The second one then starts with none of the characters that start a bound,
since these would have been read as one.
-/
import ApiSurface.Descriptor.Parser
import Mathlib.Data.List.Chain

namespace ApiSurface

/-! ## 1. Trees -/

/-- The types that are no reference types, and the absence of a result. -/
inductive Primitive where
  | byte | char | double | float | int | long | short | boolean | void
deriving DecidableEq

namespace Primitive

/-- All of them. -/
def all : List Primitive := [byte, char, double, float, int, long, short, boolean, void]

/-- The letter of a primitive type in a descriptor. -/
def letter : Primitive → Char
  | byte => 'B'
  | char => 'C'
  | double => 'D'
  | float => 'F'
  | int => 'I'
  | long => 'J'
  | short => 'S'
  | boolean => 'Z'
  | void => 'V'

/-- The keyword of a primitive type in source text. -/
def keyword : Primitive → String
  | byte => "byte"
  | char => "char"
  | double => "double"
  | float => "float"
  | int => "int"
  | long => "long"
  | short => "short"
  | boolean => "boolean"
  | void => "void"

end Primitive

/-- A bound on a type argument. -/
inductive Bound where
  /-- The argument is the type itself. -/
  | exact
  /-- The argument is a subtype. -/
  | upper
  /-- The argument is a supertype. -/
  | lower
deriving DecidableEq

mutual

/-- A type of a field, parameter or result. -/
inductive JavaType where
  | primitive (p : Primitive)
  | array (element : JavaType)
  /-- A type variable. -/
  | variable (name : List Char)
  /-- A class, by the segments of its name. -/
  | declared (segments : Segments)

/-- The segments of a class name: the outermost class with its package, and the
classes nested in it, each with its type arguments. -/
inductive Segments where
  | last (name : List Char) (arguments : Arguments)
  | nested (name : List Char) (arguments : Arguments) (inner : Segments)

/-- The type arguments of one segment: none, or a list in angle brackets. -/
inductive Arguments where
  | absent
  | given (list : ArgumentList)

/-- Type arguments in a row. -/
inductive ArgumentList where
  | nil
  /-- An argument that may be any type. -/
  | any (rest : ArgumentList)
  | bounded (bound : Bound) (type : JavaType) (rest : ArgumentList)

end

/-- A type parameter of a method: its name, and the bound behind each colon. -/
structure TypeParameter where
  name : List Char
  bounds : List (Option JavaType)

/-- The type of a method. -/
structure MethodType where
  typeParameters : List TypeParameter
  parameters : List JavaType
  result : JavaType

/-! ## 2. The form of class files -/

/-- The mark before the type of a bounded argument. -/
def Bound.spell : Bound → List Char
  | .exact => []
  | .upper => ['+']
  | .lower => ['-']

mutual

/-- A type as class files spell it. -/
def JavaType.spell : JavaType → List Char
  | .primitive p => [p.letter]
  | .array element => '[' :: element.spell
  | .variable name => 'T' :: name ++ [';']
  | .declared segments => 'L' :: segments.spell

/-- The segments of a class name as class files spell them, up to the semicolon. -/
def Segments.spell : Segments → List Char
  | .last name arguments => name ++ arguments.spell ++ [';']
  | .nested name arguments inner => name ++ arguments.spell ++ '.' :: inner.spell

/-- Type arguments as class files spell them. -/
def Arguments.spell : Arguments → List Char
  | .absent => []
  | .given list => '<' :: list.spell

/-- A row of type arguments as class files spell it, up to the closing bracket. -/
def ArgumentList.spell : ArgumentList → List Char
  | .nil => ['>']
  | .any rest => '*' :: rest.spell
  | .bounded bound type rest => bound.spell ++ type.spell ++ rest.spell

end

/-! ## 3. The form of source text -/

/-- A class name in source text: the parts between the slashes with dots between them, or
the last part alone if the others are `java` and `lang`. -/
def Descriptor.sourceName (name : List Char) : List Char :=
  match name.splitOn '/' with
  | [['j', 'a', 'v', 'a'], ['l', 'a', 'n', 'g'], simple] => simple
  | parts => ['.'].intercalate parts

/-- What stands before the type of a bounded argument. -/
def Bound.words : Bound → String
  | .exact => ""
  | .upper => "? extends "
  | .lower => "? super "

mutual

/-- A type as source text writes it. -/
def JavaType.render : JavaType → List Char
  | .primitive p => p.keyword.toList
  | .array element => element.render ++ ['[', ']']
  | .variable name => name
  | .declared segments => segments.renderOuter

/-- A class name as source text writes it, its qualifier dropped where it may be. -/
def Segments.renderOuter : Segments → List Char
  | .last name arguments => Descriptor.sourceName name ++ arguments.render
  | .nested name arguments inner =>
    Descriptor.sourceName name ++ arguments.render ++ inner.renderInner

/-- The names of nested classes, each behind a dollar sign. -/
def Segments.renderInner : Segments → List Char
  | .last name arguments => '$' :: name ++ arguments.render
  | .nested name arguments inner => '$' :: name ++ arguments.render ++ inner.renderInner

/-- Type arguments as source text writes them. -/
def Arguments.render : Arguments → List Char
  | .absent => []
  | .given list => '<' :: [',', ' '].intercalate list.render ++ ['>']

/-- The arguments of a row, each as source text writes it. -/
def ArgumentList.render : ArgumentList → List (List Char)
  | .nil => []
  | .any rest => ['?'] :: rest.render
  | .bounded bound type rest => (bound.words.toList ++ type.render) :: rest.render

end

/-- A type in place of a last parameter for any count of arguments: three dots stand for the
brackets in which its written form ends. -/
inductive Descriptor.WritesLast : List Char → List Char → Prop where
  | dots (element : List Char) :
      WritesLast (element ++ ['[', ']']) (element ++ ['.', '.', '.'])
  | same {type : List Char} (h : ¬ ['[', ']'] <:+ type) : WritesLast type type

/-- The parameters of a method as source text writes them, of a method with a fixed count of
arguments or with a variable one. -/
inductive Descriptor.WritesParameters : Bool → List JavaType → List (List Char) → Prop where
  | fixed (types : List JavaType) :
      WritesParameters false types (types.map JavaType.render)
  | none : WritesParameters true [] []
  | varargs (types : List JavaType) {last : JavaType} {written : List Char}
      (h : WritesLast last.render written) :
      WritesParameters true (types ++ [last]) (types.map JavaType.render ++ [written])

/-- The types of a method as source text writes them. -/
structure MethodType.WrittenAs (m : MethodType) (isVarargs : Bool)
    (types : Descriptor.MethodText) : Prop where
  parameters :
    Descriptor.WritesParameters isVarargs m.parameters (types.parameters.map String.toList)
  result : types.result.toList = m.result.render

open Descriptor

/-! ## 4. The grammar of types -/

/-- A name that reaches up to the next of some characters. -/
def Descriptor.IsName (stops name : List Char) : Prop :=
  name ≠ [] ∧ ∀ c ∈ name, c ∉ stops

/-- The name of one class, without its type arguments and the classes nested in it. -/
def Descriptor.IsSegment (name : List Char) : Prop := IsName ['<', ';', '.'] name

mutual

/-- The names in a type are names of the grammar. -/
def JavaType.IsWellFormed : JavaType → Prop
  | .primitive _ => True
  | .array element => element.IsWellFormed
  | .variable name => IsName [';'] name
  | .declared segments => segments.IsWellFormed

/-- The names in the segments of a class name are names of the grammar. -/
def Segments.IsWellFormed : Segments → Prop
  | .last name arguments => IsSegment name ∧ arguments.IsWellFormed
  | .nested name arguments inner =>
    IsSegment name ∧ arguments.IsWellFormed ∧ inner.IsWellFormed

/-- The names in type arguments are names of the grammar. -/
def Arguments.IsWellFormed : Arguments → Prop
  | .absent => True
  | .given list => list.IsWellFormed

/-- The names in a row of type arguments are names of the grammar. -/
def ArgumentList.IsWellFormed : ArgumentList → Prop
  | .nil => True
  | .any rest => rest.IsWellFormed
  | .bounded _ type rest => type.IsWellFormed ∧ rest.IsWellFormed

end

/-- A text starts with a spelled form, and nothing but exceptions may follow. -/
def Descriptor.StartsText (spelled : List Char) (text : String) : Prop :=
  ∃ tail, text.toList = spelled ++ tail ∧ (tail = [] ∨ tail.head? = some '^')

/-- A text spells a type. -/
def JavaType.SpelledBy (type : JavaType) (text : String) : Prop :=
  type.IsWellFormed ∧ StartsText type.spell text

/-! ## 5. The grammar of methods -/

/-- The spelled form of a bound behind its colon. -/
def Descriptor.spellBound : Option JavaType → List Char
  | none => [':']
  | some bound => ':' :: bound.spell

/-- Whether a type is no primitive one. -/
def JavaType.isReference : JavaType → Bool
  | .primitive _ => false
  | _ => true

namespace TypeParameter

/-- A type parameter as class files spell it. -/
def spell (p : TypeParameter) : List Char := p.name ++ p.bounds.flatMap spellBound

/-- A type parameter has a name, which does not start with the bracket that would end
the row, and at least one bound. Bounds that are not empty are reference types. -/
structure IsWellFormed (p : TypeParameter) : Prop where
  name : IsName [':'] p.name
  name_head : p.name.head? ≠ some '>'
  bounds_ne_nil : p.bounds ≠ []
  bounds : ∀ bound, some bound ∈ p.bounds → bound.IsWellFormed ∧ bound.isReference = true

/-- A type parameter may stand behind another: it does not start like a reference type if the
last bound of the other is empty. -/
def MayFollow (p q : TypeParameter) : Prop :=
  p.bounds.getLast? = some none → ∀ c ∈ ['L', 'T', '['], q.name.head? ≠ some c

/-- Type parameters in a row are those of the grammar, one by one and side by side. -/
structure RowIsWellFormed (row : List TypeParameter) : Prop where
  each : ∀ p ∈ row, p.IsWellFormed
  separated : row.IsChain MayFollow

end TypeParameter

namespace MethodType

/-- All that the grammar asks of the names and the type parameters in a method type. -/
structure IsWellFormed (m : MethodType) : Prop where
  typeParameters : TypeParameter.RowIsWellFormed m.typeParameters
  parameters : ∀ type ∈ m.parameters, type.IsWellFormed
  result : m.result.IsWellFormed

/-- The spelled forms of type parameters: a row in brackets, or nothing for none. -/
inductive SpellsTypeParameters : List TypeParameter → List Char → Prop where
  | absent : SpellsTypeParameters [] []
  | given (row : List TypeParameter) :
      SpellsTypeParameters row ('<' :: row.flatMap TypeParameter.spell ++ ['>'])

/-- A text spells a method type. -/
def SpelledBy (m : MethodType) (text : String) : Prop :=
  m.IsWellFormed ∧ ∃ front, SpellsTypeParameters m.typeParameters front ∧
    StartsText (front ++ '(' :: m.parameters.flatMap JavaType.spell ++ ')' :: m.result.spell) text

end MethodType

end ApiSurface
