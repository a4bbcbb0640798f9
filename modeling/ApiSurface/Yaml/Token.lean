/-
ApiSurface.Yaml.Token — YAML text as tokens.

Indentation becomes tokens here: a token opens each block collection, and one
closes it where the text is indented less. A mapping key is known as such only
by the colon behind it. So a token that may start a key is remembered, as long
as the text stays on its line and within a certain length, and when the colon
comes the token for a key is put in front of the remembered one. Inside of
brackets indentation means nothing.

Tokens are made one at a time, and only as many as are asked for: the first one
is ready as soon as it can no longer turn out to start a key. So of two faults in
a text, one in its tokens and one in their order, the one is found that comes
first.
-/
import ApiSurface.Number.Integer
import ApiSurface.Yaml.Scalar

namespace ApiSurface.Yaml

/-- The pieces of YAML text. -/
inductive Token where
  | streamEnd
  | versionDirective (major : Nat)
  | tagDirective (handle replacement : String)
  /-- A directive that means nothing. -/
  | reservedDirective
  | documentStart
  | documentEnd
  | blockSequenceStart
  | blockMappingStart
  | blockEnd
  | flowSequenceStart
  | flowMappingStart
  | flowSequenceEnd
  | flowMappingEnd
  | blockEntry
  | flowEntry
  | key
  | value
  | alias (name : String)
  | anchor (name : String)
  /-- A tag: its handle, if it is written with one, and the rest. -/
  | tag (handle : Option String) (suffix : String)
  | scalar (isPlain : Bool) (text : String)
deriving DecidableEq

/-! ## 1. Anchors, tags and directives -/

/-- The name of an anchor or alias; the cursor stands at the indicator. -/
def anchorName : Scan String := do
  forward 1
  let name ← run isNameChar
  if name.isEmpty then malformed
  let c ← peek
  if !(endsWord c || c.any ("?:,]\x7d%@`".toList.contains ·)) then malformed
  return String.ofList name

/-- Characters of a tag that stand for themselves or start an escape. -/
def isTagChar (c : Char) : Bool := c.isAlphanum || "-;/?:@&=+$,_.!~*'()[]%".toList.contains c

/-- A row of bytes, each given by two hexadecimal digits behind a percent sign. -/
def tagEscapes : Nat → Scan (List UInt8)
  | 0 => return []
  | fuel + 1 => do
    if !(← nextIs (· == '%')) then return []
    forward 1
    let digits := (← get).rest.take 2
    match Text.Hex.number? digits with
    | some n => do
      if digits.length < 2 then malformed
      forward 2
      return UInt8.ofNat n :: (← tagEscapes fuel)
    | none => malformed

/-- The characters of a tag up to the next one that cannot be part of it. -/
def tagChars : Nat → Scan (List Char)
  | 0 => return []
  | fuel + 1 => do
    let front ← run fun c => isTagChar c && c != '%'
    if ← nextIs (· == '%') then do
      let bytes ← tagEscapes ((← left) + 1)
      match String.fromUTF8? ⟨bytes.toArray⟩ with
      | some s => return front ++ s.toList ++ (← tagChars fuel)
      | none => malformed
    else return front

/-- A part of a tag that must not be empty. -/
def tagText : Scan String := do
  let text ← tagChars ((← left) + 1)
  if text.isEmpty then malformed
  return String.ofList text

/-- A tag handle: one exclamation mark, or a name between two, or two of them. -/
def tagHandle : Scan String := do
  if !(← nextIs (· == '!')) then malformed
  forward 1
  if ← nextIs (· == ' ') then return "!"
  let name ← run isNameChar
  if !(← nextIs (· == '!')) then malformed
  forward 1
  return String.ofList ('!' :: name ++ ['!'])

/-- The characters of a tag before the next blank or break. -/
def hasHandle (afterMark : List Char) : Bool :=
  (afterMark.takeWhile fun c => !(c == ' ' || isBreak c)).contains '!'

/-- A tag; the cursor stands at the exclamation mark. -/
def scanTag : Scan Token := do
  let second ← peekAt 1
  let token ← if second = some '<' then do
      forward 2
      let text ← tagText
      if !(← nextIs (· == '>')) then malformed
      forward 1
      pure (Token.tag none text)
    else if endsWord second then do
      forward 1
      pure (Token.tag none "!")
    else do
      let handle ← if hasHandle ((← get).rest.drop 1) then tagHandle else do
        forward 1
        pure "!"
      pure (Token.tag (some handle) (← tagText))
  if !endsItem (← peek) then malformed
  return token

/-- A number in a version. -/
def versionNumber : Scan Nat := do
  let digits ← run (·.isDigit)
  if digits.isEmpty then malformed
  if Number.maxDigits < digits.length then throw .longVersion
  return digits.foldl (fun n c => 10 * n + (c.toNat - '0'.toNat)) 0

/-- The version behind its directive's name. -/
def versionText : Scan Token := do
  skipBlanks
  let major ← versionNumber
  if !(← nextIs (· == '.')) then malformed
  forward 1
  let _ ← versionNumber
  if !endsItem (← peek) then malformed
  return .versionDirective major

/-- The handle and its meaning behind a directive's name. -/
def handleText : Scan Token := do
  skipBlanks
  let handle ← tagHandle
  if !(← nextIs (· == ' ')) then malformed
  skipBlanks
  let meaning ← tagText
  if !endsItem (← peek) then malformed
  return .tagDirective handle meaning

/-- A directive; the cursor stands at the percent sign. -/
def scanDirective : Scan Token := do
  forward 1
  let name ← run isNameChar
  if name.isEmpty || !endsItem (← peek) then malformed
  let token ← if name = "YAML".toList then versionText
    else if name = "TAG".toList then handleText
    else do
      let _ ← run (!isBreak ·)
      pure Token.reservedDirective
  restOfLine
  return token

/-! ## 2. The state between tokens -/

/-- A token that may turn out to start a mapping key. -/
structure KeyMark where
  /-- How many tokens stand before it, those already taken among them. -/
  position : Nat
  /-- Whether the text makes no sense unless it is one. -/
  isRequired : Bool
  index : Nat
  line : Nat
  column : Nat

/-- The tokens that are made and not yet taken, and what decides about the next ones. -/
structure Lexer where
  cursor : Cursor
  /-- The tokens that are not yet taken, in order. -/
  tokens : List Token
  /-- How many tokens have been taken. -/
  taken : Nat
  /-- The columns of the open block collections, the innermost first. -/
  columns : List Nat
  /-- The token that may start a key, for every open bracket and for the text around
  all of them, the innermost first. -/
  marks : List (Option KeyMark)
  /-- Whether the next token may start a key. -/
  mayStartKey : Bool
  /-- Whether the token of the end of the text has been made. -/
  isDone : Bool

/-- A text without the byte order mark in front of it. -/
def withoutMark : List Char → List Char
  | c :: rest => if c = byteOrderMark then rest else c :: rest
  | [] => []

namespace Lexer

/-- The state before the first token of a text. -/
def start (text : List Char) : Lexer where
  cursor := Cursor.start (withoutMark text)
  tokens := []
  taken := 0
  columns := []
  marks := [none]
  mayStartKey := true
  isDone := false

/-- Whether a bracket is open. -/
def inFlow (l : Lexer) : Bool := l.marks.length > 1

/-- The first column to the right of the innermost block collection. -/
def outer (l : Lexer) : Nat :=
  match l.columns with
  | [] => 0
  | c :: _ => c + 1

/-- Whether the cursor is to the right of the innermost block collection. -/
def isDeeper (l : Lexer) (column : Nat) : Bool := l.outer ≤ column

/-- One more token. -/
def emit (l : Lexer) (t : Token) : Lexer := { l with tokens := l.tokens ++ [t] }

/-- The position of the next token. -/
def position (l : Lexer) : Nat := l.taken + l.tokens.length

/-- A token put in at a position. -/
def insert (l : Lexer) (position : Nat) (t : Token) : Lexer :=
  let before := position - l.taken
  { l with tokens := l.tokens.take before ++ t :: l.tokens.drop before }

/-- The token that may start a key here. -/
def mark? (l : Lexer) : Option KeyMark := l.marks.head?.join

/-- Another token, or none, that may start a key here. -/
def setMark (l : Lexer) (mark : Option KeyMark) : Lexer := { l with marks := mark :: l.marks.drop 1 }

/-- The greatest length of a key. -/
def maxKeyLength : Nat := 1024

/-- Whether a colon would come too late for a mark. -/
def isStale (l : Lexer) (m : KeyMark) : Bool :=
  m.line != l.cursor.line || maxKeyLength < l.cursor.index - m.index

/-- Forgets the tokens that can no longer start a key. -/
def forgetStale (l : Lexer) : Except Fault Lexer := do
  let marks ← l.marks.mapM fun
    | some m =>
      if !l.isStale m then .ok (some m) else if m.isRequired then .error .malformed else .ok none
    | none => .ok none
  return { l with marks := marks }

/-- Forgets the token that may start a key here. -/
def forget (l : Lexer) : Except Fault Lexer :=
  match l.mark? with
  | some m => if m.isRequired then .error .malformed else .ok (l.setMark none)
  | none => .ok l

/-- Remembers that the next token may start a key, if it may. -/
def remember (l : Lexer) : Except Fault Lexer := do
  if !l.mayStartKey then return l
  let required := !l.inFlow && l.columns.head? == some l.cursor.column
  let l ← l.forget
  return l.setMark (some ⟨l.position, required, l.cursor.index, l.cursor.line, l.cursor.column⟩)

/-- Closes the block collections that are indented more than a column. -/
def unwindTo (l : Lexer) (keep : Nat → Bool) : Lexer :=
  if l.inFlow then l
  else
    let closed := l.columns.takeWhile (!keep ·)
    { l with
      columns := l.columns.dropWhile (!keep ·)
      tokens := l.tokens ++ closed.map fun _ => Token.blockEnd }

/-- Closes all block collections. -/
def unwind (l : Lexer) : Lexer := l.unwindTo fun _ => false

/-- Moves the cursor by a scan. -/
def scan {α : Type} (l : Lexer) (s : Scan α) : Except Fault (α × Lexer) := do
  let (a, cursor) ← s l.cursor
  return (a, { l with cursor := cursor })

/-- Moves the cursor past an indicator and emits its token. -/
def indicator (l : Lexer) (width : Nat) (t : Token) : Lexer :=
  { l with cursor := l.cursor.skip width }.emit t

/-- Opens a block collection at a column, unless one is open there, with its token put
in at a position. -/
def openBlock (l : Lexer) (column position : Nat) (t : Token) : Lexer :=
  if l.isDeeper column then { l with columns := column :: l.columns }.insert position t else l

/-! ## 3. Single tokens -/

/-- Skips blanks, comments and breaks. A new line may start with a key. -/
def skipToToken (l : Lexer) : Nat → Except Fault Lexer
  | 0 => .ok l
  | fuel + 1 => do
    let (first, l) ← l.scan (do skipBlanks; skipComment; lineBreak)
    if first.isEmpty then return l
    let l := { l with mayStartKey := l.mayStartKey || !l.inFlow }
    l.skipToToken fuel

/-- A mark of the border of a document. -/
def border (l : Lexer) (t : Token) : Except Fault Lexer := do
  let l ← l.unwind.forget
  return { l with mayStartKey := false }.indicator 3 t

/-- An opening bracket. -/
def openFlow (l : Lexer) (t : Token) : Except Fault Lexer := do
  let l ← l.remember
  return { l with marks := none :: l.marks, mayStartKey := true }.indicator 1 t

/-- A closing bracket. -/
def closeFlow (l : Lexer) (t : Token) : Except Fault Lexer := do
  if !l.inFlow then throw .malformed
  let l ← l.forget
  return { l with marks := l.marks.drop 1, mayStartKey := false }.indicator 1 t

/-- A comma between brackets. -/
def flowEntry (l : Lexer) : Except Fault Lexer := do
  let l ← l.forget
  return { l with mayStartKey := true }.indicator 1 .flowEntry

/-- Opens a block collection for an indicator at the cursor, if that is allowed. -/
def openForIndicator (l : Lexer) (t : Token) : Except Fault Lexer :=
  if l.inFlow then .ok l
  else if !l.mayStartKey then .error .malformed
  else .ok (l.openBlock l.cursor.column l.position t)

/-- The hyphen before an entry of a block sequence. -/
def blockEntry (l : Lexer) : Except Fault Lexer := do
  let l ← (← l.openForIndicator .blockSequenceStart).forget
  return { l with mayStartKey := true }.indicator 1 .blockEntry

/-- The question mark before a key. -/
def keyIndicator (l : Lexer) : Except Fault Lexer := do
  let l ← (← l.openForIndicator .blockMappingStart).forget
  return { l with mayStartKey := !l.inFlow }.indicator 1 .key

/-- The colon before a value. If a token was remembered, it starts the key. -/
def valueIndicator (l : Lexer) : Except Fault Lexer := do
  match l.mark? with
  | some m =>
    let l := (l.setMark none).insert m.position .key
    let l := if l.inFlow then l else l.openBlock m.column m.position .blockMappingStart
    return { l with mayStartKey := false }.indicator 1 .value
  | none =>
    let l ← l.openForIndicator .blockMappingStart
    return { l with mayStartKey := !l.inFlow }.indicator 1 .value

/-- A token that may start a key, made by a scan. -/
def item (l : Lexer) (s : Scan Token) : Except Fault Lexer := do
  let (t, l) ← (← l.remember).scan s
  return { l with mayStartKey := false }.emit t

/-- A scalar in a block. -/
def block (l : Lexer) : Except Fault Lexer := do
  let l ← l.forget
  let (text, l) ← l.scan (blockScalar l.outer)
  return { l with mayStartKey := true }.emit (.scalar false (String.ofList text))

/-- A plain scalar. A key may start behind it if a break follows it. -/
def plain (l : Lexer) : Except Fault Lexer := do
  let l ← l.remember
  let ((text, broken), l) ← l.scan (plainScalar l.inFlow l.outer)
  return { l with mayStartKey := broken }.emit (.scalar true (String.ofList text))

/-- Characters that a plain scalar cannot start with, unless a word follows some of them. -/
def indicators : List Char := "-?:,[]\x7b\x7d#&*!|>'\"%@`".toList

/-- Whether a plain scalar starts with two characters. -/
def startsPlain (inFlow : Bool) (first : Char) (second : Option Char) : Bool :=
  (!endsWord (some first) && !indicators.contains first)
    || (!endsWord second && (first == '-' || (!inFlow && (first == '?' || first == ':'))))

/-- Whether a directive is next. -/
def atDirective (c : Cursor) : Bool := c.column == 0 && c.rest.head? == some '%'

/-- Whether a border made of three marks is next. -/
def atMarks (mark : Char) (c : Cursor) : Bool :=
  c.column == 0 && c.rest.take 3 == [mark, mark, mark] && endsWord c.rest[3]?

/-- The end of the text. -/
def finish (l : Lexer) : Except Fault Lexer := do
  let l ← l.unwind.forget
  return { l with isDone := true }.emit .streamEnd

/-- The token at the cursor, which stands at a character. -/
def fetch (l : Lexer) (first : Char) : Except Fault Lexer :=
  let second := l.cursor.rest[1]?
  let standsAlone := l.inFlow || endsWord second
  if atDirective l.cursor then do
    let l ← l.unwind.forget
    let (t, l) ← l.scan scanDirective
    return { l with mayStartKey := false }.emit t
  else if atMarks '-' l.cursor then l.border .documentStart
  else if atMarks '.' l.cursor then l.border .documentEnd
  else if first = '[' then l.openFlow .flowSequenceStart
  else if first = '\x7b' then l.openFlow .flowMappingStart
  else if first = ']' then l.closeFlow .flowSequenceEnd
  else if first = '\x7d' then l.closeFlow .flowMappingEnd
  else if first = ',' then l.flowEntry
  else if first = '-' && endsWord second then l.blockEntry
  else if first = '?' && standsAlone then l.keyIndicator
  else if first = ':' && standsAlone then l.valueIndicator
  else if first = '*' then l.item (Token.alias <$> anchorName)
  else if first = '&' then l.item (Token.anchor <$> anchorName)
  else if first = '!' then l.item scanTag
  else if (first = '|' || first = '>') && !l.inFlow then l.block
  else if first = '\'' || first = '"' then
    l.item ((fun text => Token.scalar false (String.ofList text)) <$> quotedScalar)
  else if startsPlain l.inFlow first second then l.plain
  else .error .malformed

/-! ## 4. Tokens on demand -/

/-- Makes the next token, with those that its indentation calls for. -/
def advance (l : Lexer) : Except Fault Lexer := do
  let l ← l.skipToToken (l.cursor.left + 1)
  let l ← l.forgetStale
  let column := l.cursor.column
  match l.cursor.rest with
  | [] => (l.unwindTo (· ≤ column)).finish
  | first :: _ => (l.unwindTo (· ≤ column)).fetch first

/-- Whether the first token may still turn out to start a key. -/
def isFirstOpen (l : Lexer) : Bool := l.marks.any fun m => m.any (·.position == l.taken)

/-- Makes tokens until the first one is ready. -/
def readyFirst (l : Lexer) : Nat → Except Fault Lexer
  | 0 => .ok l
  | fuel + 1 => do
    if l.isDone then return l
    if l.tokens.isEmpty then (← l.advance).readyFirst fuel
    else
      let l ← l.forgetStale
      if l.isFirstOpen then (← l.advance).readyFirst fuel else return l

/-- The first token, and the state in which it is ready. Behind all others there is the
end of the text. -/
def first (l : Lexer) : Except Fault (Token × Lexer) := do
  let l ← l.readyFirst (l.cursor.left + 2)
  return (l.tokens.head?.getD .streamEnd, l)

/-- The state with the first token taken. -/
def dropFirst (l : Lexer) : Lexer :=
  match l.tokens with
  | [] => l
  | _ :: rest => { l with tokens := rest, taken := l.taken + 1 }

end Lexer

end ApiSurface.Yaml
