/-
ApiSurface.ClassFile.Fault — why bytes are not a readable class file.

`Malformed` lists the ways in which bytes can fail to be a class file, and
`IllTyped` the ways in which a constant can be of another kind than its use
requires. The two stay apart: a malformed file is a fact about one class, and
callers report it as such, while an ill-typed constant ends the run.
-/
import ApiSurface.ClassFile.Constant

namespace ApiSurface

/-- The ways in which bytes fail to be a class file or a descriptor. -/
inductive Malformed where
  | truncated
  | badMagic
  /-- Bytes of a text that spell no characters. -/
  | badText
  | unknownTag (code index : Nat)
  | noEntry (index : Nat)
  | wrongTag (index : Nat) (found : Tag) (expected : List Tag)
  | unknownElementTag (code : Nat)
  /-- Another character stood where `char` had to be. -/
  | expected (char : Char) (position : Nat) (source : String)
  | badIdentifier (position : Nat) (source : String)
  | unexpected (char : Option Char) (position : Nat) (source : String)
  | trailing (position : Nat) (source : String)

/-- The ways in which a constant is of another kind than its use requires. -/
inductive IllTyped where
  /-- A text that spells no number. -/
  | notNumeral (text : String)
  | integerOfNan
  | integerOfInfinity
  /-- A character made from a text or a real number. -/
  | characterOfOther
  /-- A character number outside the code space. -/
  | characterOutOfRange (n : Int)
  /-- A character number outside 32 bits. -/
  | characterTooLarge (n : Int)
  /-- A real number that no single-precision number is near. -/
  | singleTooLarge (x : Number.Double)

/-- Why reading a class file failed. -/
inductive ClassFault where
  | malformed (why : Malformed)
  | illTyped (why : IllTyped)

namespace Malformed

/-- Tag numbers between parentheses; a single one is followed by a comma. -/
def tagList : List Tag → String
  | [t] => "(" ++ toString t.code ++ ",)"
  | ts => "(" ++ Value.commaSeparated (ts.map fun t => toString t.code) ++ ")"

/-- A character in quotes, or empty quotes at the end of a text. -/
def quotedChar : Option Char → String
  | some c => Text.quotedString c.toString
  | none => Text.quotedString ""

/-- A place in a text that is shown in quotes. -/
def place (position : Nat) (source : String) : String :=
  " at " ++ toString position ++ " in " ++ Text.quotedString source

/-- What is wrong, in words. -/
def message : Malformed → String
  | truncated => "Unexpected end of class file"
  | badMagic => "Not a class file (bad magic number)"
  | badText => "Malformed constant pool string: the bytes spell no text"
  | unknownTag code index =>
    "Unknown constant pool tag " ++ toString code ++ " at index " ++ toString index
  | noEntry index => "Invalid constant pool index " ++ toString index
  | wrongTag index found tags =>
    "Constant pool index " ++ toString index ++ " has tag " ++ toString found.code
      ++ ", expected " ++ tagList tags
  | unknownElementTag code =>
    "Unknown annotation element tag " ++ quotedChar (some (Char.ofNat code))
  | expected char position source =>
    "Expected " ++ quotedChar (some char) ++ place position source
  | badIdentifier position source => "Malformed identifier" ++ place position source
  | unexpected char position source =>
    "Unexpected " ++ quotedChar char ++ place position source
  | trailing position source => "Trailing data" ++ place position source

end Malformed

end ApiSurface
