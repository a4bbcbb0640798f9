/-
ApiSurface.Yaml.Cursor — a place in a YAML text.

A cursor knows what is left of the text, and the line and column that it has
reached. A `Scan` is a computation that moves the cursor. Lines end at a line
feed, at the next-line character, or at one of the two Unicode separators; the
first two count as a line feed, and the others stand for themselves.
-/

namespace ApiSurface.Yaml

/-- Why a text cannot be read as YAML. -/
inductive Fault where
  /-- The text is not one document with known tags. -/
  | malformed
  /-- The version of the language has a number with too many digits. -/
  | longVersion
  /-- An escape for a number outside the code space. -/
  | noSuchCharacter (code : Nat)
  /-- A text marked as a number spells none. -/
  | badNumeral (text : String)
  /-- An empty text is marked as a number. -/
  | emptyNumeral
  /-- A number to base sixty has more places than a real number can count. -/
  | tooManyPlaces (text : String)
  /-- A text marked as a truth value spells none. -/
  | badTruth (text : String)
  /-- A text marked as a date has another form. -/
  | notDate (text : String)
  /-- A date or time that does not exist. -/
  | noSuchDate (text : String)
  /-- A mapping is marked as a date. -/
  | dateOfMapping
  /-- A mapping that is to stand for one of its values leads back to itself. -/
  | endlessText
deriving DecidableEq

/-- A place in a text. -/
structure Cursor where
  /-- What is left of the text. -/
  rest : List Char
  /-- The count of characters that are left. -/
  left : Nat
  /-- The count of characters behind. -/
  index : Nat
  line : Nat
  column : Nat

/-- The mark that may stand before a text and takes no column. -/
def byteOrderMark : Char := Char.ofNat 0xFEFF

/-- Characters that end a line and count as a line feed. -/
def isPlainBreak (c : Char) : Bool := c == '\n' || c.toNat == 0x85

/-- Characters that end a line. -/
def isBreak (c : Char) : Bool := isPlainBreak c || c.toNat == 0x2028 || c.toNat == 0x2029

namespace Cursor

/-- The start of a text. -/
def start (text : List Char) : Cursor := ⟨text, text.length, 0, 0, 0⟩

/-- One character further. -/
def next (c : Cursor) : Cursor :=
  match c.rest with
  | [] => c
  | a :: rest =>
    if isBreak a then ⟨rest, c.left - 1, c.index + 1, c.line + 1, 0⟩
    else
      ⟨rest, c.left - 1, c.index + 1, c.line, if a = byteOrderMark then c.column else c.column + 1⟩

/-- Some characters further. -/
def skip : Nat → Cursor → Cursor
  | 0, c => c
  | n + 1, c => skip n c.next

end Cursor

/-- A computation that moves the cursor. -/
abbrev Scan := StateT Cursor (Except Fault)

/-- The text has no meaning. -/
def malformed {α : Type} : Scan α := throw .malformed

/-- The character some places ahead, unless the text ends before it. -/
def peekAt (n : Nat) : Scan (Option Char) := return (← get).rest[n]?

/-- The next character. -/
def peek : Scan (Option Char) := peekAt 0

/-- Moves some characters ahead. -/
def forward (n : Nat) : Scan Unit := modify (Cursor.skip n)

/-- Whether the next character, if there is one, satisfies a condition. -/
def nextIs (p : Char → Bool) : Scan Bool := return (← peek).any p

/-- The longest run of characters that satisfy a condition. -/
def run (p : Char → Bool) : Scan (List Char) := do
  let s := (← get).rest.takeWhile p
  forward s.length
  return s

/-- How many characters are left. -/
def left : Scan Nat := return (← get).left

/-! ## Classes of characters -/

/-- A break, or the end of the text. -/
def endsLine : Option Char → Bool
  | none => true
  | some c => isBreak c

/-- A blank, a break, or the end of the text. -/
def endsItem : Option Char → Bool
  | some ' ' => true
  | c => endsLine c

/-- A blank, a tab, a break, or the end of the text. -/
def endsWord : Option Char → Bool
  | some '\t' => true
  | c => endsItem c

/-- ASCII letters, ASCII digits, the hyphen and the underscore. -/
def isNameChar (c : Char) : Bool := c.isAlphanum || c == '-' || c == '_'

/-! ## Common steps -/

/-- Takes a break, if one is next, and gives what it stands for. -/
def lineBreak : Scan (List Char) := do
  match ← peek with
  | some c =>
    if isPlainBreak c then do forward 1; return ['\n']
    else if isBreak c then do forward 1; return [c]
    else return []
  | none => return []

/-- Skips blanks. -/
def skipBlanks : Scan Unit := do
  let _ ← run (· == ' ')

/-- Skips a comment, if one is next. -/
def skipComment : Scan Unit := do
  if ← nextIs (· == '#') then
    let _ ← run (!isBreak ·)

/-- Skips the rest of a line that may hold nothing but a comment. -/
def restOfLine : Scan Unit := do
  skipBlanks
  skipComment
  if !endsLine (← peek) then malformed
  let _ ← lineBreak

/-- Whether a mark of the border of a document is next. -/
def atBorder : Scan Bool := do
  let c ← get
  let mark := c.rest.take 3
  return (mark == ['-', '-', '-'] || mark == ['.', '.', '.']) && endsWord c.rest[3]?

end ApiSurface.Yaml
