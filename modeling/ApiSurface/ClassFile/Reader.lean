/-
ApiSurface.ClassFile.Reader — reading a class from its bytes.

A `Reader` takes bytes from the front of what is left and fails at the end of
it. Attributes have a length of their own: first all attributes of an entity are
taken, then the known ones are read, each from its own bytes.

`ClassFile.read` reads one class and leaves the bytes behind it; `ClassFile.parse`
forgets them.
-/
import ApiSurface.ClassFile.Basic
import ApiSurface.ClassFile.ModifiedUtf8
import ApiSurface.ClassFile.Scalar

namespace ApiSurface

open Number (Double)

/-- A reader of bytes: it takes a beginning of what is left, or fails. -/
abbrev Reader := StateT (List UInt8) (Except ClassFault)

namespace Reader

/-! ## 1. Bytes and numbers -/

/-- The failure of bytes that are no class file. -/
def fail {α : Type} (why : Malformed) : Reader α :=
  throw (.malformed why)

/-- What cannot be a value of the kind asked for ends the reading. -/
def typed {α : Type} (e : Except IllTyped α) : Reader α :=
  match e with
  | .ok a => pure a
  | .error why => throw (.illTyped why)

/-- Whether a list has `n` elements at least. -/
def hasAtLeast (n : Nat) (l : List UInt8) : Bool :=
  n == 0 || !(l.drop (n - 1)).isEmpty

/-- The next `n` bytes. -/
def bytes (n : Nat) : Reader (List UInt8) := fun rest =>
  if hasAtLeast n rest then .ok (rest.take n, rest.drop n) else .error (.malformed .truncated)

/-- The number that bytes spell, the most significant first. -/
def ofBigEndian (l : List UInt8) : Nat :=
  l.foldl (fun n b => n * 256 + b.toNat) 0

/-- The next `n` bytes as a number. -/
def number (n : Nat) : Reader Nat := do
  return ofBigEndian (← bytes n)

/-- The next byte. -/
def u1 : Reader Nat := number 1

/-- The next two bytes. -/
def u2 : Reader Nat := number 2

/-- The next four bytes. -/
def u4 : Reader Nat := number 4

/-- A number of `bits` bits in two's complement. -/
def signed (bits n : Nat) : Int :=
  if n < Nat.pow 2 (bits - 1) then n else (n : Int) - (Nat.pow 2 bits : Nat)

/-- `n` things in a row. -/
@[specialize] def many {α : Type} (n : Nat) (one : Reader α) : Reader (List α) :=
  match n with
  | 0 => pure []
  | n + 1 => do
    let first ← one
    let rest ← many n one
    pure (first :: rest)

/-- A count in two bytes, and that many things. -/
@[inline] def counted {α : Type} (one : Reader α) : Reader (List α) := do
  many (← u2) one

end Reader

open Reader

/-! ## 2. The constant pool -/

/-- The text of a pool entry. -/
def Reader.utf8Text (n : Nat) : Reader String := do
  match ModifiedUtf8.decode? (← bytes n) with
  | some s => pure s
  | none => fail .badText

/-- One pool entry; `index` is its place, for the report of an unknown tag. -/
def Constant.read (index : Nat) : Reader Constant := do
  let code ← u1
  match Tag.ofCode? code with
  | none => fail (.unknownTag code index)
  | some .utf8 => return .utf8 (← utf8Text (← u2))
  | some .integer => return .integer (signed 32 (← u4))
  | some .float => return .float (Double.ofSingle (← u4))
  | some .long => return .long (signed 64 (← number 8))
  | some .double => return .double (Double.ofPattern (← number 8))
  | some .classRef => return .classRef (← u2)
  | some .string => return .string (← u2)
  | some .nameAndType => return .nameAndType (← u2) (← u2)
  | some tag => return .uninspected tag (← bytes tag.payloadSize)

/-- A constant pool: the entry at each index, and none at index zero and at the
second index of an entry that takes two. -/
structure Pool where
  slots : Array (Option Constant)

namespace Pool

/-- The slots that an entry takes. -/
def slotsOf (c : Constant) : Array (Option Constant) :=
  if c.tag.width = 2 then #[some c, none] else #[some c]

/-- The entries from `index` up to `count`, put behind the slots read before. -/
def readFrom (count index : Nat) (slots : Array (Option Constant)) :
    Reader (Array (Option Constant)) :=
  if index < count then do
    let c ← Constant.read index
    if c.tag.width = 2 then readFrom count (index + 2) (slots ++ slotsOf c)
    else readFrom count (index + 1) (slots ++ slotsOf c)
  else pure slots
termination_by count - index

/-- The pool: its count of indices, and entries from index one on. -/
def read : Reader Pool := do
  let count ← u2
  return ⟨← readFrom count 1 #[none]⟩

/-- The entry at an index, if there is one. -/
def entry? (pool : Pool) (index : Nat) : Option Constant :=
  (pool.slots[index]?).join

/-- The entry at an index, which must have one of the given tags. -/
def entry (pool : Pool) (index : Nat) (expected : List Tag) : Except Malformed Constant :=
  match pool.entry? index with
  | none => .error (.noEntry index)
  | some c => if expected.contains c.tag then .ok c else .error (.wrongTag index c.tag expected)

/-- The text at an index. -/
def utf8 (pool : Pool) (index : Nat) : Except Malformed String := do
  match ← pool.entry index [.utf8] with
  | .utf8 s => pure s
  | _ => .error (.noEntry index)

/-- The binary name of the class at an index. -/
def className (pool : Pool) (index : Nat) : Except Malformed String := do
  match ← pool.entry index [.classRef] with
  | .classRef name => return binaryName (← pool.utf8 name)
  | _ => .error (.noEntry index)

/-- The binary name of the class at an index; index zero stands for no class. -/
def optionalClassName (pool : Pool) (index : Nat) : Except Malformed (Option String) :=
  if index = 0 then pure none else some <$> pool.className index

/-- The tags of entries that hold a number or a text. -/
def scalarTags : List Tag := [.integer, .float, .long, .double, .string, .utf8]

/-- The number or text at an index. -/
def scalar (pool : Pool) (index : Nat) : Except Malformed Scalar := do
  match ← pool.entry index scalarTags with
  | .integer n | .long n => pure (.integer n)
  | .float x | .double x => pure (.real x)
  | .utf8 s => pure (.text s)
  | .string text => return .text (← pool.utf8 text)
  | _ => .error (.noEntry index)

/-- The name and the descriptor at an index. -/
def nameAndType (pool : Pool) (index : Nat) : Except Malformed (String × String) := do
  match ← pool.entry index [.nameAndType] with
  | .nameAndType name descriptor =>
    let name ← pool.utf8 name
    return (name, ← pool.utf8 descriptor)
  | _ => .error (.noEntry index)

end Pool

/-- A look-up in the pool as a step of reading. -/
def Reader.look {α : Type} (e : Except Malformed α) : Reader α :=
  match e with
  | .ok a => pure a
  | .error why => fail why

/-- An index in two bytes, and the text there. -/
def Reader.name (pool : Pool) : Reader String := do
  look (pool.utf8 (← u2))

/-- An index in two bytes, and the number or text there. -/
def Reader.scalar (pool : Pool) : Reader Scalar := do
  look (pool.scalar (← u2))

/-! ## 3. Annotations -/

/-- The type of an annotation or an enum constant: a descriptor's binary name. -/
def Reader.typeName (pool : Pool) : Reader String := do
  return binaryNameOfDescriptor (← Reader.name pool)

/-- Named values in reading order, a repeated name with its last value. -/
def collectValues (pairs : List (String × Value)) : List (String × Value) :=
  pairs.foldl (fun values pair => putValue pair.1 pair.2 values) []

/-- One annotation, whose element values `value` reads. -/
def readAnnotationWith (value : Reader Value) (pool : Pool) (isVisible : Bool) :
    Reader Annotation := do
  let type ← Reader.typeName pool
  let pairs ← counted do
    let name ← Reader.name pool
    let v ← value
    pure (name, v)
  return ⟨type, isVisible, collectValues pairs⟩

/-- An element value nested at most `depth` deep. Each level takes at least the
byte of its tag, so a depth of as many levels as there are bytes is enough. -/
def Value.readWithin (pool : Pool) : Nat → Reader Value
  | 0 => fail .truncated
  | depth + 1 => do
    let code ← u1
    match Char.ofNat code with
    | 'B' | 'I' | 'J' | 'S' => return .integer (← typed (← Reader.scalar pool).toInteger)
    | 'D' | 'F' => return .real (← typed (← Reader.scalar pool).toReal)
    | 'Z' => return .boolean (← Reader.scalar pool).truth
    | 'C' => return .text (← typed (← Reader.scalar pool).toCharacter)
    | 's' => return .text (Text.ofString (← Reader.name pool))
    | 'e' => return .enumConstant (← Reader.typeName pool) (← Reader.name pool)
    | 'c' => return .classLiteral (← Reader.name pool)
    | '@' =>
      let a ← readAnnotationWith (Value.readWithin pool depth) pool true
      return .annotationLiteral a.type a.isVisible a.values
    | '[' => return .list (← counted (Value.readWithin pool depth))
    | _ => fail (.unknownElementTag code)

/-- An element value. -/
def Value.read (pool : Pool) : Reader Value := fun rest =>
  Value.readWithin pool rest.length rest

/-- The annotations of one attribute. -/
def readAnnotations (pool : Pool) (isVisible : Bool) : Reader (List Annotation) :=
  counted (readAnnotationWith (Value.read pool) pool isVisible)

/-! ## 4. Attributes -/

/-- An attribute that has been taken but not read. -/
structure Attribute where
  name : String
  body : List UInt8

/-- The attributes of an entity, none of them read yet. -/
def Attribute.takeAll (pool : Pool) : Reader (List Attribute) :=
  counted do
    let name ← Reader.name pool
    let body ← bytes (← u4)
    pure ⟨name, body⟩

/-- What `read` finds at the front of an attribute's bytes. -/
def Attribute.get {α : Type} (a : Attribute) (read : Reader α) : Except ClassFault α :=
  (read.run a.body).map (·.1)

/-- Whether an attribute holds annotations, and if so whether they are kept at run time. -/
def Attribute.annotationVisibility? (a : Attribute) : Option Bool :=
  if a.name = "RuntimeVisibleAnnotations" then some true
  else if a.name = "RuntimeInvisibleAnnotations" then some false
  else none

/-! ## 5. Members -/

/-- A field with what one of its attributes adds. -/
def FieldInfo.withAttribute (pool : Pool) (f : FieldInfo) (a : Attribute) :
    Except ClassFault FieldInfo :=
  if a.name = "ConstantValue" then do
    let v ← a.get do typed ((← Reader.scalar pool).fieldValue f.descriptor)
    return { f with constant := some v }
  else if a.name = "Signature" then do
    return { f with signature := some (← a.get (Reader.name pool)) }
  else match a.annotationVisibility? with
    | some isVisible => do
      return { f with annotations := f.annotations ++ (← a.get (readAnnotations pool isVisible)) }
    | none => pure f

/-- One field. -/
def FieldInfo.read (pool : Pool) : Reader FieldInfo := do
  let flags ← u2
  let name ← Reader.name pool
  let descriptor ← Reader.name pool
  let attributes ← Attribute.takeAll pool
  StateT.lift <| attributes.foldlM (FieldInfo.withAttribute pool)
    ⟨flags, name, descriptor, none, none, []⟩

/-- A method with what one of its attributes adds. -/
def MethodInfo.withAttribute (pool : Pool) (m : MethodInfo) (a : Attribute) :
    Except ClassFault MethodInfo :=
  if a.name = "Signature" then do
    return { m with signature := some (← a.get (Reader.name pool)) }
  else if a.name = "AnnotationDefault" then do
    return { m with default := some (← a.get (Value.read pool)) }
  else match a.annotationVisibility? with
    | some isVisible => do
      return { m with annotations := m.annotations ++ (← a.get (readAnnotations pool isVisible)) }
    | none => pure m

/-- One method. -/
def MethodInfo.read (pool : Pool) : Reader MethodInfo := do
  let flags ← u2
  let name ← Reader.name pool
  let descriptor ← Reader.name pool
  let attributes ← Attribute.takeAll pool
  StateT.lift <| attributes.foldlM (MethodInfo.withAttribute pool)
    ⟨flags, name, descriptor, none, [], none⟩

/-! ## 6. The class -/

/-- One entry of the table of nested classes. -/
def InnerClass.read (pool : Pool) : Reader InnerClass := do
  let inner ← u2
  let outer ← u2
  let simpleName ← u2
  let flags ← u2
  let inner ← look (pool.className inner)
  let outer ← look (pool.optionalClassName outer)
  let simpleName ← if simpleName = 0 then pure none else some <$> look (pool.utf8 simpleName)
  return ⟨inner, outer, simpleName, flags⟩

/-- The enclosing class and method. -/
def Enclosing.read (pool : Pool) : Reader Enclosing := do
  let owner ← look (pool.className (← u2))
  let index ← u2
  let method ← if index = 0 then pure none else some <$> look (pool.nameAndType index)
  return ⟨owner, method⟩

/-- A class with what one of its attributes adds. -/
def ClassFile.withAttribute (pool : Pool) (c : ClassFile) (a : Attribute) :
    Except ClassFault ClassFile :=
  if a.name = "Signature" then do
    return { c with signature := some (← a.get (Reader.name pool)) }
  else if a.name = "InnerClasses" then do
    return { c with innerClasses := c.innerClasses ++ (← a.get (counted (InnerClass.read pool))) }
  else if a.name = "EnclosingMethod" then do
    return { c with enclosing := some (← a.get (Enclosing.read pool)) }
  else match a.annotationVisibility? with
    | some isVisible => do
      return { c with annotations := c.annotations ++ (← a.get (readAnnotations pool isVisible)) }
    | none => pure c

/-- The number at the start of every class file. -/
def ClassFile.magic : Nat := 0xCAFEBABE

/-- One class. -/
def ClassFile.read : Reader ClassFile := do
  unless (← u4) = ClassFile.magic do fail .badMagic
  let minor ← u2
  let major ← u2
  let pool ← Pool.read
  let flags ← u2
  let name ← look (pool.className (← u2))
  let superclass ← look (pool.optionalClassName (← u2))
  let interfaces ← counted do look (pool.className (← u2))
  let fields ← counted (FieldInfo.read pool)
  let methods ← counted (MethodInfo.read pool)
  let attributes ← Attribute.takeAll pool
  StateT.lift <| attributes.foldlM (ClassFile.withAttribute pool)
    ⟨major, minor, flags, name, superclass, interfaces, none, fields, methods, [], [], none⟩

/-- The class at the front of the bytes; what follows it does not matter. -/
def ClassFile.parse (bytes : List UInt8) : Except ClassFault ClassFile :=
  (ClassFile.read.run bytes).map (·.1)

end ApiSurface
