/-
ApiSurface.Yaml.Scalar — the texts of scalars.

A scalar stands in quotes, below an indicator in a block, or plain. In all forms
a single line break between two lines of text counts as a blank, and of several
breaks the first is dropped; only a literal block keeps its breaks. How the last
breaks of a block are treated is up to its indicator.
-/
import ApiSurface.Text.Hex
import ApiSurface.Yaml.Cursor

namespace ApiSurface.Yaml

/-- What a break and the empty lines behind it stand for between two lines of text. -/
def folded (first breaks : List Char) : List Char :=
  if first != ['\n'] then first ++ breaks
  else if breaks.isEmpty then [' '] else breaks

/-! ## 1. Scalars in quotes -/

/-- What single characters stand for behind a backslash. -/
def escapes : List (Char × Nat) := [
  ('0', 0), ('a', 7), ('b', 8), ('t', 9), ('\t', 9), ('n', 10), ('v', 11), ('f', 12), ('r', 13),
  ('e', 27), (' ', 32), ('"', 34), ('\\', 92), ('/', 47), ('N', 0x85), ('_', 0xA0),
  ('L', 0x2028), ('P', 0x2029)]

/-- The count of digits behind the letters that introduce a character number. -/
def numberEscapes : List (Char × Nat) := [('x', 2), ('u', 4), ('U', 8)]

/-- What stands for an escaped surrogate, which no text can hold. -/
def replacement : Char := Char.ofNat 0xFFFD

/-- The empty lines inside quotes. The border of a document must not be among them. -/
def quotedBreaks : Nat → Scan (List Char)
  | 0 => return []
  | fuel + 1 => do
    if ← atBorder then malformed
    let _ ← run fun c => c == ' ' || c == '\t'
    match ← lineBreak with
    | [] => return []
    | b => return b ++ (← quotedBreaks fuel)

/-- The character that a backslash in double quotes introduces. -/
def escaped : Scan (List Char) := do
  match ← peek with
  | none => malformed
  | some c =>
    match escapes.lookup c with
    | some n => do forward 1; return [Char.ofNat n]
    | none =>
      match numberEscapes.lookup c with
      | some width => do
        forward 1
        let digits := (← get).rest.take width
        if digits.length < width then malformed
        match Text.Hex.number? digits with
        | none => malformed
        | some n =>
          if 0x110000 ≤ n then throw (.noSuchCharacter n)
          forward width
          return [if n.isValidChar then Char.ofNat n else replacement]
      | none =>
        if isBreak c then do
          let _ ← lineBreak
          quotedBreaks ((← left) + 1)
        else malformed

/-- The characters up to a blank, a break or the closing quote. -/
def quotedWord (isDouble : Bool) : Nat → Scan (List Char)
  | 0 => return []
  | fuel + 1 => do
    let front ← run fun c => !(c == '\'' || c == '"' || c == '\\' || c == ' ' || c == '\t' || isBreak c)
    match ← peek, ← peekAt 1 with
    | some '\'', second =>
      if isDouble then do
        forward 1
        return front ++ '\'' :: (← quotedWord isDouble fuel)
      else if second = some '\'' then do
        forward 2
        return front ++ '\'' :: (← quotedWord isDouble fuel)
      else return front
    | some '"', _ =>
      if isDouble then return front
      else do
        forward 1
        return front ++ '"' :: (← quotedWord isDouble fuel)
    | some '\\', _ => do
      forward 1
      if isDouble then return front ++ (← escaped) ++ (← quotedWord isDouble fuel)
      else return front ++ '\\' :: (← quotedWord isDouble fuel)
    | _, _ => return front

/-- The blanks and breaks between two words in quotes. -/
def quotedGap : Scan (List Char) := do
  let blanks ← run fun c => c == ' ' || c == '\t'
  match ← peek with
  | none => malformed
  | some c =>
    if isBreak c then do
      let first ← lineBreak
      let breaks ← quotedBreaks ((← left) + 1)
      return folded first breaks
    else return blanks

/-- Words and gaps up to the closing quote. -/
def quotedRest (isDouble : Bool) : Nat → Scan (List Char)
  | 0 => malformed
  | fuel + 1 => do
    let word ← quotedWord isDouble ((← left) + 1)
    if (← peek) = some (if isDouble then '"' else '\'') then do
      forward 1
      return word
    else do
      let gap ← quotedGap
      return word ++ gap ++ (← quotedRest isDouble fuel)

/-- A scalar in quotes; the cursor stands at the opening one. -/
def quotedScalar : Scan (List Char) := do
  let isDouble := (← peek) = some '"'
  forward 1
  quotedRest isDouble ((← left) + 1)

/-! ## 2. Scalars in blocks -/

/-- What becomes of the last breaks of a block. -/
inductive Chomping where
  | clip | strip | keep
deriving DecidableEq

/-- The chomping indicator, if one is next. -/
def chomping? : Scan (Option Chomping) := do
  match ← peek with
  | some '+' => do forward 1; return some .keep
  | some '-' => do forward 1; return some .strip
  | _ => return none

/-- The indentation indicator, if one is next. -/
def indentation? : Scan (Option Nat) := do
  match ← peek with
  | some c =>
    if c.isDigit then
      if c = '0' then malformed
      forward 1
      return some (c.toNat - '0'.toNat)
    else return none
  | none => return none

/-- The indicators of a block, in either order. -/
def blockIndicators : Scan (Chomping × Option Nat) := do
  match ← chomping? with
  | some chomping => do
    let indentation ← indentation?
    return (chomping, indentation)
  | none => do
    let indentation ← indentation?
    match indentation with
    | some _ => return ((← chomping?).getD .clip, indentation)
    | none => return (.clip, none)

/-- Skips blanks up to a column. -/
def skipIndentation (column : Nat) : Scan Unit := do
  let c ← get
  forward (min (c.rest.takeWhile (· == ' ')).length (column - c.column))

/-- The empty lines before a line with the given indentation. -/
def blockBreaks (indentation : Nat) : Nat → Scan (List Char)
  | 0 => return []
  | fuel + 1 => do
    skipIndentation indentation
    match ← lineBreak with
    | [] => return []
    | b => return b ++ (← blockBreaks indentation fuel)

/-- The empty lines at the start of a block, and the widest column in them. -/
def leadingLines : Nat → Scan (List Char × Nat)
  | 0 => return ([], 0)
  | fuel + 1 => do
    match ← lineBreak with
    | [] =>
      if ← nextIs (· == ' ') then do
        forward 1
        let column := (← get).column
        let (breaks, widest) ← leadingLines fuel
        return (breaks, max column widest)
      else return ([], 0)
    | b => do
      let (breaks, widest) ← leadingLines fuel
      return (b ++ breaks, widest)

/-- Whether the cursor stands at text with the given indentation. -/
def atIndentation (indentation : Nat) : Scan Bool := do
  let c ← get
  return c.column == indentation && !c.rest.isEmpty

/-- The lines of a block, its last break, and the empty lines behind. -/
def blockLines (isFolded : Bool) (indentation : Nat) :
    Nat → List Char → Scan (List Char × List Char × List Char)
  | 0, breaks => return ([], [], breaks)
  | fuel + 1, breaks => do
    if !(← atIndentation indentation) then return ([], [], breaks)
    let isBlank (c : Char) : Bool := c == ' ' || c == '\t'
    let startsBlank ← nextIs isBlank
    let line ← run (!isBreak ·)
    let first ← lineBreak
    let empty ← blockBreaks indentation ((← left) + 1)
    if ← atIndentation indentation then
      let joins := isFolded && first == ['\n'] && !startsBlank && !(← nextIs isBlank)
      let joint := if joins then (if empty.isEmpty then [' '] else []) else first
      let (more, last, behind) ← blockLines isFolded indentation fuel empty
      return (breaks ++ line ++ joint ++ more, last, behind)
    else return (breaks ++ line, first, empty)

/-- A scalar in a block whose surroundings are indented up to a column; the cursor
stands at the indicator. -/
def blockScalar (outer : Nat) : Scan (List Char) := do
  let isFolded := (← peek) = some '>'
  forward 1
  let (chomping, increment) ← blockIndicators
  if !endsItem (← peek) then malformed
  restOfLine
  let least := max outer 1
  let (indentation, breaks) ← match increment with
    | none => do
      let (breaks, widest) ← leadingLines ((← left) + 1)
      pure (max least widest, breaks)
    | some n => do
      let indentation := least + n - 1
      pure (indentation, ← blockBreaks indentation ((← left) + 1))
  let (text, last, behind) ← blockLines isFolded indentation ((← left) + 1) breaks
  match chomping with
  | .strip => return text
  | .clip => return text ++ last
  | .keep => return text ++ last ++ behind

/-! ## 3. Plain scalars -/

/-- Characters that separate the items of a collection in brackets. -/
def isFlowMark (c : Char) : Bool := c == ',' || c == '[' || c == ']' || c == '\x7b' || c == '\x7d'

/-- The length of the run of plain text at the front of a text. -/
def plainLength (inFlow : Bool) : List Char → Nat
  | [] => 0
  | c :: rest =>
    let next := rest.head?
    if endsWord (some c) then 0
    else if c = ':' && (endsWord next || (inFlow && next.any isFlowMark)) then 0
    else if inFlow && (isFlowMark c || c = '?') then 0
    else plainLength inFlow rest + 1

/-- The empty lines between two lines of plain text; none at the border of a document. -/
def plainBreaks : Nat → Scan (Option (List Char))
  | 0 => return some []
  | fuel + 1 => do
    if ← atBorder then return none
    skipBlanks
    match ← lineBreak with
    | [] => return some []
    | b => return (← plainBreaks fuel).map (b ++ ·)

/-- What stands between two runs of plain text, and whether it holds a break. -/
def plainGap : Scan (List Char × Bool) := do
  let blanks ← run (· == ' ')
  match ← lineBreak with
  | [] => return (blanks, false)
  | first =>
    match ← plainBreaks ((← left) + 1) with
    | none => return ([], true)
    | some breaks => return (folded first breaks, true)

/-- Runs of plain text with the gaps between them, and whether the last gap holds a
break. Outside of brackets the lines must be indented to a column. -/
def plainRuns (inFlow : Bool) (column : Nat) : Nat → List Char → Bool → Scan (List Char × Bool)
  | 0, _, broken => return ([], broken)
  | fuel + 1, gap, broken => do
    if ← nextIs (· == '#') then return ([], broken)
    let length := plainLength inFlow (← get).rest
    if length = 0 then return ([], broken)
    let text := (← get).rest.take length
    forward length
    let (gap', broken') ← plainGap
    if gap'.isEmpty || (← nextIs (· == '#')) || (!inFlow && (← get).column < column) then
      return (gap ++ text, broken')
    else do
      let (more, broken'') ← plainRuns inFlow column fuel gap' broken'
      return (gap ++ text ++ more, broken'')

/-- A plain scalar, and whether a break follows it. -/
def plainScalar (inFlow : Bool) (column : Nat) : Scan (List Char × Bool) := do
  plainRuns inFlow column ((← left) + 1) [] false

end ApiSurface.Yaml
