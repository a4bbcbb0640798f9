/-
ApiSurface.Snapshot.Block — the text of a public interface.

Every class has a block: its shown annotations, a header, a line for each public
method and then for each public field, and the terminator. Members are indented,
and have their shown annotations on lines of their own above them.

The types of a member are those of its generic signature if it has one that can
be read, and otherwise those of its descriptor. So a faulty signature leaves no
trace but a log record, and a faulty descriptor matters only where there is no
signature to take its place.
-/
import ApiSurface.Descriptor.Parser
import ApiSurface.Snapshot.Literal
import ApiSurface.Visibility.Rules

namespace ApiSurface.Snapshot

/-! ## 1. Lines -/

/-- The line that ends a block. -/
def terminator : String := "##"

/-- What stands before the lines of members. -/
def memberIndent : String := "  "

/-- Words with a blank between them. -/
def words (parts : List String) : String := " ".intercalate parts

/-- Words with a comma between them. -/
def listed (parts : List String) : String := ", ".intercalate parts

/-- The lines of annotations, by their simple names. -/
def annotationLines (indent : String) (names : List String) : List String :=
  names.map fun name => indent ++ "@" ++ Names.simple name

/-- A keyword with names behind it, if there are any names. -/
def clause (keyword : String) (names : List String) : List String :=
  if names.isEmpty then [] else [keyword, listed names]

/-- The header of a class. -/
def header (r : ClassRecord) : String :=
  let mask := if r.isInterface then Flags.interfaceMask else Flags.classMask
  let keywords := Flags.keywords Flags.classKeywords (r.modifiers &&& mask)
  words <| keywords ++
    if r.isAnnotationType then ["@interface", r.name]
    else if r.isInterface then ["interface", r.name] ++ clause "extends" r.interfaces
    else ["class", r.name] ++ clause "extends" r.superclassName?.toList
      ++ clause "implements" r.interfaces

/-! ## 2. Members -/

/-- Reads the generic signature of a member or, failing that, its descriptor. -/
def typesOf {α : Type} (m : Member) (read : String → Except Malformed α) : Report ClassFault α :=
  let fromDescriptor := Report.ofExcept ((read m.descriptor).mapError .malformed)
  match m.signature.filter (· != "") with
  | none => fromDescriptor
  | some signature =>
    match read signature with
    | .ok types => return types
    | .error why => do
      Report.debug "writer" ("Ignoring generic signature of " ++ m.owner ++ "." ++ m.name
        ++ ": " ++ why.message)
      fromDescriptor

/-- The line of a method. A constructor has no result type. -/
def methodLine (m : MethodRecord) : Report ClassFault String := do
  let isVarargs := Flags.has m.modifiers Flags.isVarargs
  let types ← typesOf m.toMember fun text => Descriptor.renderedMethod text isVarargs
  return words (Flags.keywords Flags.methodKeywords m.modifiers
    ++ (if m.isConstructor then [] else [types.result])
    ++ [m.name ++ "(" ++ listed types.parameters ++ ")"])

/-- The line of a field, with its constant if it has one. -/
def fieldLine (f : FieldRecord) : Report ClassFault String := do
  let type ← typesOf f.toMember Descriptor.rendered
  let declaration := words (Flags.keywords Flags.fieldKeywords f.modifiers ++ [type, f.name])
  match f.constant with
  | none => return declaration
  | some value =>
    let literal ← Report.ofExcept ((Literal.constant f.descriptor value).mapError .illTyped)
    return declaration ++ " = " ++ literal

/-- The line of a member below those of its annotations. -/
def memberLines (v : View) (m : Member) (line : String) : List String :=
  annotationLines memberIndent (v.memberAnnotations m).visible ++ [memberIndent ++ line]

/-! ## 3. Blocks -/

/-- What a reporting function gives for each element in order, joined. -/
def collect {α β : Type} (f : α → Report ClassFault (List β)) :
    List α → Report ClassFault (List β)
  | [] => return []
  | a :: rest => do
    let front ← f a
    let back ← collect f rest
    return front ++ back

/-- The lines of a class. -/
def block (v : View) (r : ClassRecord) : Report ClassFault (List String) := do
  let methods ← collect (fun m => return memberLines v m.toMember (← methodLine m))
    (v.publicMethods r)
  let fields ← collect (fun f => return memberLines v f.toMember (← fieldLine f))
    (v.publicFields r)
  return annotationLines "" (v.classAnnotations r).visible ++ [header r]
    ++ methods ++ fields ++ [terminator]

/-- Lines, each with its end. -/
def ofLines (lines : List String) : String :=
  String.join (lines.map (· ++ "\n"))

/-- The text of some classes. -/
def render (v : View) (classes : List ClassRecord) : Report ClassFault String :=
  return ofLines (← collect (block v) classes)

end ApiSurface.Snapshot
