/-
ApiSurface.Descriptor.Parser — descriptors and signatures as source text.

A descriptor is a special case of a generic signature, so one parser serves both. It
makes the form of source text as it goes: keywords for primitive types, brackets behind
the element of an array, dots in package names, a dollar sign before a nested name, and
no qualifier for a class that lies directly in `java.lang`.

Each part takes a type from the front of a list of characters and gives back its text
and what is left. A flaw is reported with the count of characters left where it was
found, from which its position follows once the whole text is known.

A level of recursion takes one character at least, or steps from an argument to
its type without taking any. So twice the length of the text bounds the depth,
and `scan` hides that bound.
-/
import ApiSurface.Descriptor.Basic
import ApiSurface.ClassFile.Basic
import ApiSurface.ClassFile.Fault

namespace ApiSurface.Descriptor

/-! ## 1. Flaws -/

/-- What is wrong with a text, and how many characters are left there. -/
inductive Flaw where
  | expected (char : Char) (left : Nat)
  | badIdentifier (left : Nat)
  | unexpected (char : Option Char) (left : Nat)
  | trailing (left : Nat)
deriving DecidableEq

/-- The fault of a text with a flaw: the flaw's place counts from the start. -/
def Flaw.malformed (source : String) : Flaw → Malformed
  | .expected char left => .expected char (source.length - left) source
  | .badIdentifier left => .badIdentifier (source.length - left) source
  | .unexpected char left => .unexpected char (source.length - left) source
  | .trailing left => .trailing (source.length - left) source

/-! ## 2. Types -/

/-- The next character, which must be `c`. -/
def expect (c : Char) : List Char → Except Flaw (Unit × List Char)
  | [] => .error (.expected c 0)
  | d :: rest => if d = c then .ok ((), rest) else .error (.expected c (rest.length + 1))

/-- The characters before the next one of `stops`: at least one, and a stop must follow. -/
def identifier (stops : List Char) (s : List Char) : Except Flaw (List Char × List Char) :=
  let name := s.takeWhile (!stops.contains ·)
  let rest := s.dropWhile (!stops.contains ·)
  if name.isEmpty || rest.isEmpty then .error (.badIdentifier s.length) else .ok (name, rest)

/-- The characters that end a segment of a class name. -/
def segmentStops : List Char := ['<', ';', '.']

/-- The fault of a text in which no type starts. -/
def noType (s : List Char) : Flaw := .unexpected s.head? s.length

mutual

/-- A type. -/
def scanType : Nat → List Char → Except Flaw (String × List Char)
  | 0, s => .error (noType s)
  | _ + 1, [] => .error (noType [])
  | depth + 1, c :: rest =>
    match keyword? c with
    | some word => .ok (word, rest)
    | none =>
      if c = '[' then do
        let (element, rest) ← scanType depth rest
        .ok (element ++ "[]", rest)
      else if c = 'T' then do
        let (name, rest) ← identifier [';'] rest
        let ((), rest) ← expect ';' rest
        .ok (String.ofList name, rest)
      else if c = 'L' then scanClass depth rest
      else .error (noType (c :: rest))

/-- A class name with its type arguments and those nested in it, up to the semicolon. -/
def scanClass : Nat → List Char → Except Flaw (String × List Char)
  | 0, s => .error (.badIdentifier s.length)
  | depth + 1, s => do
    let (name, rest) ← identifier segmentStops s
    let (arguments, rest) ← scanArguments depth rest
    let (nested, rest) ← scanNested depth rest
    let ((), rest) ← expect ';' rest
    .ok (simplifyTypeName (binaryName (String.ofList name)) ++ arguments ++ nested, rest)

/-- The names of nested classes, each behind a dot. -/
def scanNested : Nat → List Char → Except Flaw (String × List Char)
  | depth + 1, '.' :: rest => do
    let (name, rest) ← identifier segmentStops rest
    let (arguments, rest) ← scanArguments depth rest
    let (nested, rest) ← scanNested depth rest
    .ok ("$" ++ String.ofList name ++ arguments ++ nested, rest)
  | _, s => .ok ("", s)

/-- Type arguments, if a bracket opens. -/
def scanArguments : Nat → List Char → Except Flaw (String × List Char)
  | depth + 1, '<' :: rest => do
    let (list, rest) ← scanArgumentList depth rest
    .ok ("<" ++ String.intercalate ", " list ++ ">", rest)
  | _, s => .ok ("", s)

/-- Type arguments in a row, up to the closing bracket. -/
def scanArgumentList : Nat → List Char → Except Flaw (List String × List Char)
  | 0, s => .error (noType s)
  | depth + 1, s =>
    match s with
    | '>' :: rest => .ok ([], rest)
    | '*' :: rest => do
      let (list, rest) ← scanArgumentList depth rest
      .ok ("?" :: list, rest)
    | '+' :: rest => do
      let (type, rest) ← scanType depth rest
      let (list, rest) ← scanArgumentList depth rest
      .ok (("? extends " ++ type) :: list, rest)
    | '-' :: rest => do
      let (type, rest) ← scanType depth rest
      let (list, rest) ← scanArgumentList depth rest
      .ok (("? super " ++ type) :: list, rest)
    | s => do
      let (type, rest) ← scanType depth s
      let (list, rest) ← scanArgumentList depth rest
      .ok (type :: list, rest)

end

/-- A type at the front of a text. -/
def scan (s : List Char) : Except Flaw (String × List Char) :=
  scanType (2 * s.length + 1) s

/-! ## 3. Methods -/

/-- Whether a bound behind a colon starts with a type. -/
def startsBound : List Char → Bool
  | 'L' :: _ | 'T' :: _ | '[' :: _ => true
  | _ => false

/-- What is left behind the bounds of a type parameter, each behind a colon and each
maybe empty. -/
def skipBounds : Nat → List Char → Except Flaw (List Char)
  | depth + 1, ':' :: rest => do
    if startsBound rest then
      let (_, rest) ← scan rest
      skipBounds depth rest
    else skipBounds depth rest
  | _, s => .ok s

/-- What is left behind type parameters in a row and the closing bracket. -/
def skipTypeParameters : Nat → List Char → Except Flaw (List Char)
  | _, '>' :: rest => .ok rest
  | 0, s => .error (.badIdentifier s.length)
  | depth + 1, s => do
    let (_, rest) ← identifier [':'] s
    let rest ← skipBounds rest.length rest
    skipTypeParameters depth rest

/-- What is left behind the type parameters, if a bracket opens. -/
def skipTypeParameterList : List Char → Except Flaw (List Char)
  | '<' :: rest => skipTypeParameters rest.length rest
  | s => .ok s

/-- Parameter types in a row, up to the closing parenthesis. -/
def scanParameters : Nat → List Char → Except Flaw (List String × List Char)
  | _, ')' :: rest => .ok ([], rest)
  | 0, s => .error (noType s)
  | depth + 1, s => do
    let (type, rest) ← scan s
    let (types, rest) ← scanParameters depth rest
    .ok (type :: types, rest)

/-- The parameter types and the result type of a method as source text writes them. -/
structure MethodText where
  parameters : List String
  result : String
deriving DecidableEq

/-- The types of a method at the front of a text. -/
def scanMethod (s : List Char) : Except Flaw (MethodText × List Char) := do
  let rest ← skipTypeParameterList s
  let ((), rest) ← expect '(' rest
  let (parameters, rest) ← scanParameters rest.length rest
  let (result, rest) ← scan rest
  .ok (⟨parameters, result⟩, rest)

/-! ## 4. Whole texts -/

/-- What a parser finds, if the text ends behind it or goes on with the exceptions
of a method, which are not looked at. -/
def finish {α : Type} (found : Except Flaw (α × List Char)) : Except Flaw α :=
  match found with
  | .error flaw => .error flaw
  | .ok (a, []) => .ok a
  | .ok (a, '^' :: _) => .ok a
  | .ok (_, rest) => .error (.trailing rest.length)

/-- A list whose last element is changed. -/
def changeLast {α : Type} (f : α → α) : List α → List α
  | [] => []
  | [a] => [f a]
  | a :: rest => a :: changeLast f rest

/-- The type of the last parameter of a method with a variable count of arguments:
three dots in place of the brackets of an array. -/
def withEllipsis (type : String) : String :=
  let chars := type.toList
  if ['[', ']'].isSuffixOf chars then
    String.ofList (chars.take (chars.length - 2) ++ ['.', '.', '.'])
  else type

/-- The types of a method that may have a variable count of arguments. -/
def MethodText.withVarargs (isVarargs : Bool) (types : MethodText) : MethodText where
  parameters :=
    if isVarargs then changeLast withEllipsis types.parameters else types.parameters
  result := types.result

/-- A field descriptor or signature as source text writes it. -/
def rendered (text : String) : Except Malformed String :=
  (finish (scan text.toList)).mapError (Flaw.malformed text)

/-- A method descriptor or signature as source text writes it. -/
def renderedMethod (text : String) (isVarargs : Bool) : Except Malformed MethodText :=
  ((finish (scanMethod text.toList)).mapError (Flaw.malformed text)).map
    (MethodText.withVarargs isVarargs)

end ApiSurface.Descriptor
