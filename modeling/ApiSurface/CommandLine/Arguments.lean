/-
ApiSurface.CommandLine.Arguments — what a command line asks for.

Some options stand before the name of the command, and the others behind it. The
options are carried out from left to right: help ends everything as soon as it
is met, and so does a fault. Words that nothing takes are a fault in the end.
-/
import ApiSurface.CommandLine.Word
import ApiSurface.Number.Integer

namespace ApiSurface.CommandLine

/-- What is given for an option. -/
inductive Given (α : Type) where
  | value (a : α)
  /-- Nothing, which the separator behind an option in the same word stands for. -/
  | nothing
deriving DecidableEq

/-- The value that is given, if there is one. -/
def Given.value? {α : Type} : Given α → Option α
  | value a => some a
  | nothing => none

/-- What the text behind an option in the same word gives. -/
def Given.ofAttached (text : List Char) : Given String :=
  if text = ['-', '-'] then nothing else value (String.ofList text)

/-- What a command line asks for. -/
structure Arguments where
  isVerbose : Bool
  isQuiet : Bool
  logFile : Option (Given String)
  sources : List String
  /-- The path of the settings. -/
  config : Given String
  classpath : List (Given String)
  excludedPackages : List (Given String)
  excludedClasses : List (Given String)
  excludedMethods : List (Given String)
  outputFolder : Option (Given String)
  jobs : Option (Given Int)

namespace Arguments

/-- A command line that asks for nothing. -/
def empty : Arguments := ⟨false, false, none, [], .value ".", [], [], [], [], none, none⟩

/-- The count that a text gives. -/
def countOf : Given String → Except Stop (Given Int)
  | .nothing => .ok .nothing
  | .value text =>
    match Number.integer? text with
    | some n => .ok (.value n)
    | none => .error .refused

/-- The arguments with one more option carried out. -/
def carryOut (a : Arguments) (flag : Flag) (given : Given String) : Except Stop Arguments :=
  match flag with
  | .help => .error .helped
  | .verbose => .ok { a with isVerbose := true }
  | .quiet => .ok { a with isQuiet := true }
  | .logFile => .ok { a with logFile := some given }
  | .config => .ok { a with config := given }
  | .classpath => .ok { a with classpath := a.classpath ++ [given] }
  | .excludePackage => .ok { a with excludedPackages := a.excludedPackages ++ [given] }
  | .excludeClass => .ok { a with excludedClasses := a.excludedClasses ++ [given] }
  | .excludeMethod => .ok { a with excludedMethods := a.excludedMethods ++ [given] }
  | .outputFolder => .ok { a with outputFolder := some given }
  | .jobs => (countOf given).map fun n => { a with jobs := some n }

/-- The arguments with some options carried out that take no value. -/
def carryOutAll (a : Arguments) (flags : List Flag) : Except Stop Arguments :=
  flags.foldlM (fun a flag => a.carryOut flag .nothing) a

end Arguments

/-! ## 1. One option -/

/-- An option with its value, and options without values written before it in the
same word. -/
structure Group where
  /-- The options without values. -/
  before : List Flag
  /-- The last option, if it takes a value. -/
  last : Option Flag
  /-- The value of the last option, if it is in the same word. -/
  value? : Option (Given String)

/-- The options in one word. Behind a short option without a value another one may
follow, and an equals sign between them is passed over. -/
def groupOf (table : OptionTable) (name : List Char) (flag : Flag) :
    Option (List Char) → Except Stop Group
  | none => .ok (if flag.takesValue then ⟨[], some flag, none⟩ else ⟨[flag], none, none⟩)
  | some attached =>
    if flag.takesValue then .ok ⟨[], some flag, some (.ofAttached attached)⟩
    else if name[1]? = some '-' then .error .refused
    else
      match attached with
      | [] => .error .refused
      | c :: rest =>
        match table.find? (·.1 == ['-', c]) with
        | none => .error .refused
        | some (name', flag') => do
          let behind := if rest.isEmpty then none else some rest
          let g ← groupOf table name' flag' behind
          return { g with before := flag :: g.before }
termination_by attached => (attached.map List.length).getD 0
decreasing_by
  simp only [Option.map_some, Option.getD_some, List.length_cons]
  split <;> simp

/-- Carries out an option, which may take the next word as its value. -/
def option (table : OptionTable) (a : Arguments) (name : List Char) (flag : Flag)
    (attached : Option (List Char)) (rest : List Word) : Except Stop (Arguments × List Word) := do
  let g ← groupOf table name flag attached
  match g.last, g.value? with
  | none, _ => return (← a.carryOutAll g.before, rest)
  | some last, some given => return (← (← a.carryOutAll g.before).carryOut last given, rest)
  | some last, none =>
    match rest with
    | .operand given :: rest => return (← (← a.carryOutAll g.before).carryOut last (.value given), rest)
    | _ => throw .refused

/-! ## 2. The command -/

/-- The options of the command. -/
def commandOptions : OptionTable := [
  ("-h", Flag.help), ("--help", .help), ("-v", .verbose), ("--verbose", .verbose),
  ("-q", .quiet), ("--quiet", .quiet), ("--config", .config), ("--classpath", .classpath),
  ("--exclude-package", .excludePackage), ("--exclude-class", .excludeClass),
  ("--exclude-method", .excludeMethod), ("--output-dir", .outputFolder),
  ("-j", .jobs), ("--jobs", .jobs)].map fun entry => (entry.1.toList, entry.2)

/-- The text of a word that is no option. -/
def operandText? : Word → Option String
  | .operand text => some text
  | .separator => some "--"
  | .option _ _ _ | .unknownOption => none

/-- The sources that some words name; the first separator among them is dropped. -/
def sourcesOf (words : List Word) : List String :=
  (words.filterMap operandText?).erase "--"

/-- Whether a word can name a source. -/
def isOperand (w : Word) : Bool := (operandText? w).isSome

/-- Carries out the words behind the command. The first operands in a row are the
sources, and later ones are left over. `isComplete` says that nothing is left over. -/
def commandWords (a : Arguments) (mayName isComplete : Bool) :
    Nat → List Word → Except Stop Arguments
  | 0, _ => .error .refused
  | _ + 1, [] => if isComplete then .ok a else .error .refused
  | fuel + 1, w :: rest =>
    match w with
    | .option name flag attached => do
      let (a, rest) ← option commandOptions a name flag attached rest
      commandWords a mayName isComplete fuel rest
    | .unknownOption => commandWords a mayName false fuel rest
    | .operand _ | .separator =>
      let here := (w :: rest).takeWhile isOperand
      let behind := (w :: rest).dropWhile isOperand
      if mayName then
        commandWords { a with sources := sourcesOf here } false isComplete fuel behind
      else commandWords a false false fuel behind

/-- Carries out the command with the texts behind it. -/
def command (a : Arguments) (isComplete : Bool) (texts : List String) : Except Stop Arguments := do
  let words ← classifyAll commandOptions texts
  commandWords a true isComplete (words.length + 1) words

/-! ## 3. The whole line -/

/-- The options before the command. -/
def generalOptions : OptionTable := [
  ("-h", Flag.help), ("--help", .help), ("-v", .verbose), ("--verbose", .verbose),
  ("-q", .quiet), ("--quiet", .quiet), ("--log-file", .logFile)].map
    fun entry => (entry.1.toList, entry.2)

/-- The name of the command. -/
def commandName : String := "scan"

/-- Carries out the words of a line up to the command, and then the command with the
texts behind it. -/
def lineWords (a : Arguments) (isComplete : Bool) (texts : List String) :
    Nat → List Word → Except Stop Arguments
  | 0, _ => .error .refused
  | _ + 1, [] => .error .refused
  | fuel + 1, w :: rest =>
    match w with
    | .option name flag attached => do
      let (a, rest) ← option generalOptions a name flag attached rest
      lineWords a isComplete texts fuel rest
    | .unknownOption => lineWords a false texts fuel rest
    | .operand text =>
      if text = commandName then command a isComplete (texts.drop (texts.length - rest.length))
      else .error .refused
    | .separator => .error .refused

/-- What a command line asks for. -/
def parse (texts : List String) : Except Stop Arguments := do
  let words ← classifyAll generalOptions texts
  lineWords .empty true texts (words.length + 1) words

end ApiSurface.CommandLine
