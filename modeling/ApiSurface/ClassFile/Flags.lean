/-
ApiSurface.ClassFile.Flags — access flags and their keywords.

An access flag is one bit; the same bit may mean one thing on a class and
another on a member. A flag word is a natural, and `has` asks whether it shares
a bit with a flag or a mask. Keywords come in the canonical order of modifiers.
-/

namespace ApiSurface.Flags

/-! ## Flags -/

/-- Visible everywhere. -/
def isPublic : Nat := 0x0001

/-- Visible in its class only. -/
def isPrivate : Nat := 0x0002

/-- Visible in its package and to subclasses. -/
def isProtected : Nat := 0x0004

/-- Belongs to the class and not to its instances. -/
def isStatic : Nat := 0x0008

/-- Cannot be extended, overridden or assigned. -/
def isFinal : Nat := 0x0010

/-- Of a method: takes the monitor of its object. -/
def isSynchronized : Nat := 0x0020

/-- Of a field: read and written in memory order. A bridge method has the same bit. -/
def isVolatile : Nat := 0x0040

/-- Of a field: left out of its object's serial form. -/
def isTransient : Nat := 0x0080

/-- Of a method: takes a variable count of arguments. -/
def isVarargs : Nat := 0x0080

/-- Of a method: implemented outside the virtual machine. -/
def isNative : Nat := 0x0100

/-- Of a class: an interface. -/
def isInterface : Nat := 0x0200

/-- Has no implementation of its own. -/
def isAbstract : Nat := 0x0400

/-- Keeps to strict floating-point evaluation. -/
def isStrict : Nat := 0x0800

/-- Made by the compiler, without a counterpart in source text. -/
def isSynthetic : Nat := 0x1000

/-- Of a class: an annotation type. -/
def isAnnotationType : Nat := 0x2000

/-- Of a class: an enum type. -/
def isEnum : Nat := 0x4000

/-! ## Masks -/

/-- The flags that make an entity part of an interface to other code. -/
def visibilityMask : Nat := isPublic ||| isProtected

/-- The flags of a class that its header shows. -/
def classMask : Nat :=
  isPublic ||| isProtected ||| isPrivate ||| isAbstract ||| isStatic ||| isFinal ||| isStrict

/-- The flags of an interface that its header shows. -/
def interfaceMask : Nat := isPublic ||| isProtected ||| isPrivate ||| isStatic ||| isStrict

/-- The flags a method of the public interface may have. A bridge method has a
flag outside this mask; a method made by the compiler has not. -/
def methodMask : Nat :=
  isPublic ||| isProtected ||| isPrivate ||| isAbstract ||| isStatic ||| isFinal
    ||| isSynchronized ||| isNative ||| isStrict ||| isVarargs ||| isSynthetic

/-- The flags a field of the public interface may have. -/
def fieldMask : Nat :=
  isPublic ||| isProtected ||| isPrivate ||| isStatic ||| isFinal ||| isTransient ||| isVolatile

/-! ## Questions -/

/-- Whether a flag word shares a bit with a mask. -/
def has (flags mask : Nat) : Bool := flags &&& mask != 0

/-- Whether a flag word makes its entity visible to other code. -/
def isVisible (flags : Nat) : Bool := has flags visibilityMask

/-- Whether a flag word has no bit outside a mask. -/
def within (flags mask : Nat) : Bool := flags &&& mask == flags

/-! ## Keywords -/

/-- Class flags and their keywords, in canonical order. -/
def classKeywords : List (Nat × String) := [
  (isPublic, "public"), (isProtected, "protected"), (isPrivate, "private"),
  (isAbstract, "abstract"), (isStatic, "static"), (isFinal, "final"), (isStrict, "strictfp")]

/-- Method flags and their keywords, in canonical order. -/
def methodKeywords : List (Nat × String) := [
  (isPublic, "public"), (isProtected, "protected"), (isPrivate, "private"),
  (isAbstract, "abstract"), (isStatic, "static"), (isFinal, "final"),
  (isSynchronized, "synchronized"), (isNative, "native"), (isStrict, "strictfp")]

/-- Field flags and their keywords, in canonical order. -/
def fieldKeywords : List (Nat × String) := [
  (isPublic, "public"), (isProtected, "protected"), (isPrivate, "private"),
  (isStatic, "static"), (isFinal, "final"), (isTransient, "transient"),
  (isVolatile, "volatile")]

/-- The keywords of a flag word, in the order of the table. -/
def keywords (table : List (Nat × String)) (flags : Nat) : List String :=
  (table.filter fun entry => has flags entry.1).map (·.2)

end ApiSurface.Flags
