/-
ApiSurface.Yaml.Tag — what kind of value a node is.

A node may carry a tag. A plain scalar without one takes its tag from its text,
and so does any scalar whose tag is left open: the forms of truth values,
numbers, dates and the absence of a value are listed here, and everything else
is a text. A line feed may stand behind any of these forms. Integers may be binary, octal, decimal,
hexadecimal or to base sixty, with underscores between digits. A real number has
a point always, and its exponent a sign.
-/
import ApiSurface.Number.Digit
import ApiSurface.Text.Hex

namespace ApiSurface.Yaml

/-- The kinds of values. -/
inductive Tag where
  | text | integer | real | boolean | nothing | date | bytes
  | sequence | mapping | set | orderedMapping | pairs
  /-- The key that takes over the entries of other mappings. -/
  | merge
  /-- The key of the entry that stands for its whole mapping. -/
  | value
  | unknown
deriving DecidableEq

namespace Tag

/-- What the names of the common tags start with. -/
def common : String := "tag:yaml.org,2002:"

/-- The last parts of the names of the common tags. -/
def names : List (String × Tag) := [
  ("str", text), ("int", integer), ("float", real), ("bool", boolean), ("null", nothing),
  ("timestamp", date), ("binary", bytes), ("seq", sequence), ("map", mapping), ("set", set),
  ("omap", orderedMapping), ("pairs", pairs), ("merge", merge), ("value", value)]

/-- The tag with a name. -/
def ofName (name : String) : Tag :=
  match names.find? fun entry => common ++ entry.1 == name with
  | some (_, tag) => tag
  | none => unknown

/-! ## 1. Words -/

/-- A word in lower case, with a capital, and in capitals. -/
def spellings (word : String) : List String :=
  [word, String.ofList (match word.toList with
    | [] => []
    | c :: rest => c.toUpper :: rest), word.map Char.toUpper]

/-- The words for truth. -/
def trueWords : List String := ["yes", "true", "on"]

/-- The words for falsehood. -/
def falseWords : List String := ["no", "false", "off"]

/-- Whether a text is a truth value. -/
def isTruth (s : String) : Bool := (trueWords ++ falseWords).any fun word => (spellings word).contains s

/-- Whether a text is the absence of a value. -/
def isNothing (s : String) : Bool := s == "" || s == "~" || (spellings "null").contains s

/-! ## 2. Numbers -/

/-- A digit or an underscore. -/
def isDigitOrUnderscore (c : Char) : Bool := c.isDigit || c == '_'

/-- Whether a text is a digit followed by digits and underscores. -/
def isRun : List Char → Bool
  | [] => false
  | c :: rest => c.isDigit && rest.all isDigitOrUnderscore

/-- Whether a text is a number below sixty with at most two digits. -/
def isSixtieth : List Char → Bool
  | [a] => a.isDigit
  | [a, b] => '0' ≤ a && a ≤ '5' && b.isDigit
  | _ => false

/-- The pieces of a text between colons. -/
def pieces : List Char → List (List Char)
  | [] => [[]]
  | c :: rest =>
    if c = ':' then [] :: pieces rest
    else match pieces rest with
      | [] => [[c]]
      | piece :: more => (c :: piece) :: more

/-- Whether an unsigned text is an integer. -/
def isUnsignedInteger (s : List Char) : Bool :=
  match s with
  | ['0'] => true
  | '0' :: 'b' :: rest => !rest.isEmpty && rest.all fun c => c == '0' || c == '1' || c == '_'
  | '0' :: 'x' :: rest =>
    !rest.isEmpty && rest.all fun c => (Text.Hex.value? c).isSome || c == '_'
  | '0' :: rest => rest.all fun c => ('0' ≤ c && c ≤ '7') || c == '_'
  | _ =>
    match pieces s with
    | first :: rest => isRun first && rest.all isSixtieth
    | [] => false

/-- Whether a text is an integer. -/
def isInteger (s : List Char) : Bool := isUnsignedInteger (Number.splitSign s).2

/-- Whether a text is nothing, or an exponent with its sign. -/
def isExponent : List Char → Bool
  | [] => true
  | e :: sign :: digits =>
    (e == 'e' || e == 'E') && (sign == '+' || sign == '-') && !digits.isEmpty
      && digits.all Char.isDigit
  | _ => false

/-- Whether a text is a fraction with an exponent. -/
def isFraction (s : List Char) : Bool :=
  isExponent (s.dropWhile isDigitOrUnderscore)

/-- Whether an unsigned text is a number with a point. -/
def isPointed (s : List Char) : Bool :=
  match s.span (· != '.') with
  | (whole, '.' :: fraction) =>
    (isRun whole && isFraction fraction)
      || (match pieces whole with
        | first :: second :: rest =>
          isRun first && (second :: rest).all isSixtieth && fraction.all isDigitOrUnderscore
        | _ => false)
  | _ => false

/-- Whether a text is a real number. Without a digit before its point it has no sign. -/
def isReal (s : List Char) : Bool :=
  let unsigned := (Number.splitSign s).2
  isPointed unsigned || (spellings "inf").any (fun word => unsigned == '.' :: word.toList)
    || (match s with
      | '.' :: c :: rest => c.isDigit && isFraction rest
      | _ => false)
    || [".nan", ".NaN", ".NAN"].any (·.toList == s)

/-! ## 3. Dates -/

/-- A count of digits between two bounds at the front of a text, and the rest. -/
def digitsBetween (least most : Nat) (s : List Char) : Option (List Char × List Char) :=
  let digits := (s.take most).takeWhile Char.isDigit
  if digits.length < least then none else some (digits, s.drop digits.length)

/-- A character at the front of a text, and the rest. -/
def skipChar (c : Char) : List Char → Option (List Char)
  | d :: rest => if d = c then some rest else none
  | [] => none

/-- A zone: the place of a clock, as an offset in hours and minutes. -/
inductive Zone where
  | universal
  | offset (isWest : Bool) (hours minutes : List Char)
deriving DecidableEq

/-- The time of a day as it is written. -/
structure ClockText where
  hour : List Char
  minute : List Char
  second : List Char
  fraction : List Char
  zone : Option Zone

/-- A date as it is written, maybe with a time. -/
structure DateText where
  year : List Char
  month : List Char
  day : List Char
  clock : Option ClockText

/-- A zone at the end of a text; nothing is no zone. -/
def zoneText? (s : List Char) : Option (Option Zone) :=
  match s.dropWhile fun c => c == ' ' || c == '\t' with
  | [] => if s.isEmpty then some none else none
  | ['Z'] => some (some .universal)
  | sign :: rest =>
    if sign = '+' || sign = '-' then do
      let (hours, rest) ← digitsBetween 1 2 rest
      match rest with
      | [] => some (some (.offset (sign = '-') hours []))
      | _ => do
        let (minutes, rest) ← digitsBetween 2 2 (← skipChar ':' rest)
        if rest.isEmpty then some (some (.offset (sign = '-') hours minutes)) else none
    else none

/-- A time with its zone at the end of a text. -/
def clockText? (s : List Char) : Option ClockText := do
  let (hour, rest) ← digitsBetween 1 2 s
  let (minute, rest) ← digitsBetween 2 2 (← skipChar ':' rest)
  let (second, rest) ← digitsBetween 2 2 (← skipChar ':' rest)
  let (fraction, rest) := match rest with
    | '.' :: rest => (rest.takeWhile Char.isDigit, rest.dropWhile Char.isDigit)
    | _ => ([], rest)
  return ⟨hour, minute, second, fraction, ← zoneText? rest⟩

/-- The date that a text spells from its first character to its last. -/
def dateText? (s : List Char) : Option DateText := do
  let (year, rest) ← digitsBetween 4 4 s
  let (month, rest) ← digitsBetween 1 2 (← skipChar '-' rest)
  let (day, rest) ← digitsBetween 1 2 (← skipChar '-' rest)
  match rest with
  | [] => some ⟨year, month, day, none⟩
  | c :: behind =>
    if c = 'T' || c = 't' then return ⟨year, month, day, some (← clockText? behind)⟩
    else if c = ' ' || c = '\t' then
      let clock := behind.dropWhile fun c => c == ' ' || c == '\t'
      return ⟨year, month, day, some (← clockText? clock)⟩
    else none

/-- Whether a plain text is a date. A date without a time has all its digits. -/
def isDate (s : List Char) : Bool :=
  match dateText? s with
  | some d => d.clock.isSome || (d.month.length == 2 && d.day.length == 2)
  | none => false

/-! ## 4. Texts without a tag -/

/-- A text without the line feed at its end, if it ends with one. The forms of all
values allow one line feed behind them. -/
def withoutFinalFeed (s : String) : String :=
  if s.toList.getLast? = some '\n' then String.ofList s.toList.dropLast else s

/-- Texts that are indicators and nothing else, and stand for no value. -/
def bareIndicators : List String := ["!", "&", "*"]

/-- The tag of a text that takes it from its form. -/
def ofForm (s : String) : Tag :=
  let chars := s.toList
  if isTruth s then boolean
  else if isReal chars then real
  else if isInteger chars then integer
  else if s = "<<" then merge
  else if isNothing s then nothing
  else if isDate chars then date
  else if s = "=" then value
  else if bareIndicators.contains s then unknown
  else text

/-- The tag of a scalar that takes it from its text. A line feed alone is a text. -/
def ofPlain (s : String) : Tag := if s = "\n" then text else ofForm (withoutFinalFeed s)

end Tag

end ApiSurface.Yaml
