/-
ApiSurface.CommandLine.Word — the words of a command line.

A word is an option, an operand, or the separator behind which everything is an
operand. A long option may be cut short as long as it is clear which one is
meant, and may have its value behind an equals sign. A short option may have its
value, or further short options, directly behind it. A negative number is an
operand, and so is a word with a blank that is no option.
-/
import ApiSurface.Number.Digit

namespace ApiSurface.CommandLine

/-- The options. -/
inductive Flag where
  | help | verbose | quiet | logFile
  | config | classpath | excludePackage | excludeClass | excludeMethod | outputFolder | jobs
deriving DecidableEq

/-- Whether an option takes a value. -/
def Flag.takesValue : Flag → Bool
  | help | verbose | quiet => false
  | logFile | config | classpath | excludePackage | excludeClass | excludeMethod | outputFolder
  | jobs => true

/-- The names of options. -/
abbrev OptionTable := List (List Char × Flag)

/-- Why a command line is not carried out. -/
inductive Stop where
  /-- Help was asked for. -/
  | helped
  /-- The command line makes no sense. -/
  | refused
deriving DecidableEq

/-- One word of a command line. -/
inductive Word where
  | operand (text : String)
  | separator
  /-- An option, with its name as it is in the table, and what is written behind it. -/
  | option (name : List Char) (flag : Flag) (attached : Option (List Char))
  /-- A word that looks like an option and is none. -/
  | unknownOption

/-- The parts of a word before and behind its first equals sign, if it has one. -/
def splitEquals (word : List Char) : Option (List Char × List Char) :=
  match word.dropWhile (· != '=') with
  | [] => none
  | _ :: behind => some (word.takeWhile (· != '='), behind)

/-- The long options that a word may be short for. -/
def longCandidates (table : OptionTable) (word : List Char) : List Word :=
  let (start, attached) := match splitEquals word with
    | some (start, behind) => (start, some behind)
    | none => (word, none)
  (table.filter fun entry => start.isPrefixOf entry.1).map fun entry =>
    Word.option entry.1 entry.2 attached

/-- The options that a word with one hyphen may be. -/
def shortCandidates (table : OptionTable) (word : List Char) : List Word :=
  table.filterMap fun entry =>
    if entry.1 = word.take 2 then some (Word.option entry.1 entry.2 (some (word.drop 2)))
    else if word.isPrefixOf entry.1 then some (Word.option entry.1 entry.2 none)
    else none

/-- Whether characters are decimal digits and there is at least one. -/
def isDigits (s : List Char) : Bool := !s.isEmpty && s.all fun c => (Number.digitValue? c).isSome

/-- Whether a word is a negative number, with or without a point. A line feed may stand
behind it. -/
def isNegativeNumber : List Char → Bool
  | '-' :: behind =>
    let body := if behind.getLast? = some '\n' then behind.dropLast else behind
    isDigits body ||
      match body.dropWhile (· != '.') with
      | _ :: fraction =>
        let whole := body.takeWhile (· != '.')
        (whole.isEmpty || isDigits whole) && isDigits fraction
      | [] => false
  | _ => false

/-- A word that has no exact place in the table. -/
def inexact (table : OptionTable) (word : List Char) : Except Stop Word :=
  let candidates :=
    if word.drop 1 |>.head? |> (· == some '-') then longCandidates table word
    else shortCandidates table word
  match candidates with
  | [w] => .ok w
  | _ :: _ :: _ => .error .refused
  | [] =>
    if isNegativeNumber word || word.contains ' ' then .ok (.operand (String.ofList word))
    else .ok .unknownOption

/-- What a word is. -/
def classify (table : OptionTable) (text : String) : Except Stop Word :=
  let word := text.toList
  if word.head? != some '-' then .ok (.operand text)
  else
    match table.find? (·.1 == word) with
    | some (name, flag) => .ok (.option name flag none)
    | none =>
      if word.length = 1 then .ok (.operand text)
      else
        match splitEquals word with
        | some (start, behind) =>
          match table.find? (·.1 == start) with
          | some (name, flag) => .ok (.option name flag (some behind))
          | none => inexact table word
        | none => inexact table word

/-- What all words are. Behind the separator everything is an operand. -/
def classifyAll (table : OptionTable) : List String → Except Stop (List Word)
  | [] => .ok []
  | text :: rest =>
    if text = "--" then .ok (.separator :: rest.map .operand)
    else do
      let word ← classify table text
      return word :: (← classifyAll table rest)

end ApiSurface.CommandLine
