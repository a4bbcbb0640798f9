/-
ApiSurface.ClassFile.Constant — the entries of a constant pool.

An entry starts with a tag. Most of what follows is looked at only where names,
texts and numbers are needed; the rest of the kinds are kept with their bytes
uninspected. Long and double entries take two indices of the pool.
-/
import ApiSurface.ClassFile.Value

namespace ApiSurface

open Number (Double)

/-- The kinds of pool entries. -/
inductive Tag where
  | utf8 | integer | float | long | double | classRef | string
  | fieldRef | methodRef | interfaceMethodRef | nameAndType
  | methodHandle | methodType | dynamic | invokeDynamic | moduleRef | packageRef
deriving DecidableEq

namespace Tag

/-- The byte of a tag. -/
def code : Tag → Nat
  | utf8 => 1
  | integer => 3
  | float => 4
  | long => 5
  | double => 6
  | classRef => 7
  | string => 8
  | fieldRef => 9
  | methodRef => 10
  | interfaceMethodRef => 11
  | nameAndType => 12
  | methodHandle => 15
  | methodType => 16
  | dynamic => 17
  | invokeDynamic => 18
  | moduleRef => 19
  | packageRef => 20

/-- All tags, in the order of their bytes. -/
def all : List Tag := [
  utf8, integer, float, long, double, classRef, string, fieldRef, methodRef,
  interfaceMethodRef, nameAndType, methodHandle, methodType, dynamic, invokeDynamic,
  moduleRef, packageRef]

/-- The tag with a given byte. -/
def ofCode? (n : Nat) : Option Tag := all.find? fun t => t.code == n

/-- The byte of a tag determines the tag. -/
theorem ofCode?_code (t : Tag) : ofCode? t.code = some t := by
  cases t <;> rfl

/-- The count of pool indices that an entry takes. -/
def width : Tag → Nat
  | long | double => 2
  | _ => 1

/-- The count of bytes behind the tag of an entry that is kept uninspected. -/
def payloadSize : Tag → Nat
  | methodHandle => 3
  | methodType | moduleRef | packageRef => 2
  | _ => 4

end Tag

/-- An entry of a constant pool. -/
inductive Constant where
  | utf8 (text : String)
  | integer (n : Int)
  | float (x : Double)
  | long (n : Int)
  | double (x : Double)
  /-- A class, by the index of its name. -/
  | classRef (name : Nat)
  /-- A string, by the index of its text. -/
  | string (text : Nat)
  /-- A member's name and descriptor, by their indices. -/
  | nameAndType (name descriptor : Nat)
  /-- An entry of another kind, with the bytes behind its tag. -/
  | uninspected (tag : Tag) (payload : List UInt8)

namespace Constant

/-- The tag of an entry. -/
def tag : Constant → Tag
  | utf8 _ => .utf8
  | integer _ => .integer
  | float _ => .float
  | long _ => .long
  | double _ => .double
  | classRef _ => .classRef
  | string _ => .string
  | nameAndType _ _ => .nameAndType
  | uninspected tag _ => tag

end Constant

end ApiSurface
