/-
ApiSurface.Yaml.Value — what a part of a YAML document says.

Scalars say numbers, truth values, dates, bytes or texts by their tags, and
collections are lists and mappings. A mapping has a key once. A whole number is
the same key as the real number and the truth value that equal it, and times in
different zones are the same key if they are one moment. What is not a number is
the same key only as itself: every such number is one of its own, but all that
are written by the word for it are one.
-/
import ApiSurface.Text.Base64
import ApiSurface.Yaml.Date
import ApiSurface.Yaml.Numeral

namespace ApiSurface.Yaml

open Number (Double)

/-- What a document or a part of it says. -/
inductive Value where
  | nothing
  | boolean (b : Bool)
  | integer (n : Int)
  | real (x : Double)
  | text (s : String)
  | date (d : Date)
  | bytes (b : List UInt8)
  | list (items : List Value)
  | mapping (entries : List (Value × Value))
  /-- A collection of another kind, such as a set, or one that is not looked into. -/
  | opaqueValue

/-- What reads texts as documents. -/
abbrev Reader := List Char → Except Fault Value

/-! ## 1. Scalars -/

/-- The truth value that a text spells. -/
def truthOf (s : String) : Except Fault Bool :=
  let lower := String.ofList (s.toList.map Number.lowerAscii)
  if Tag.trueWords.contains lower then .ok true
  else if Tag.falseWords.contains lower then .ok false
  else .error (.badTruth s)

/-- The date that a text spells. A line feed may stand behind it. -/
def dateOf (s : String) : Except Fault Date :=
  match Tag.dateText? (Tag.withoutFinalFeed s).toList with
  | none => .error (.notDate s)
  | some written =>
    let d := Date.ofText written
    if d.doesExist then .ok d else .error (.noSuchDate s)

/-- The bytes that a text spells. -/
def bytesOf (s : String) : Except Fault (List UInt8) :=
  if s.toList.any fun c => 0x7F < c.toNat then .error .malformed
  else
    match Text.Base64.decode s.toList with
    | some b => .ok b
    | none => .error .malformed

/-- The value of a text with a tag; the tags of collections and of keys have none. -/
def scalarValue (tag : Tag) (s : String) : Except Fault Value :=
  match tag with
  | .text => .ok (.text s)
  | .integer => (integerOf s).map .integer
  | .real => (realOf s).map .real
  | .boolean => (truthOf s).map .boolean
  | .nothing => .ok .nothing
  | .date => (dateOf s).map .date
  | .bytes => (bytesOf s).map .bytes
  | .sequence | .mapping | .set | .orderedMapping | .pairs | .merge | .value | .unknown =>
    .error .malformed

/-! ## 2. Keys -/

/-- A key of a mapping. -/
structure Key where
  value : Value
  /-- The node of what is not a number, unless the word for it is written there. -/
  origin : Option Nat

/-- A scalar number as a fraction: its sign, numerator and denominator. -/
def number? : Value → Option (Bool × Nat × Nat)
  | .boolean b => some (false, if b then 1 else 0, 1)
  | .integer n => some (decide (n < 0), n.natAbs, 1)
  | .real x =>
    match x.datum with
    | .finite isNegative coeff exponent =>
      let (num, den) := Number.ratio coeff exponent
      some (isNegative && num != 0, num, den)
    | _ => none
  | _ => none

namespace Key

/-- Whether two keys are the same. -/
def isSame (a b : Key) : Bool :=
  match number? a.value, number? b.value with
  | some (s, n, d), some (s', n', d') => s == s' && n * d' == n' * d
  | _, _ =>
    match a.value, b.value with
    | .nothing, .nothing => true
    | .real x, .real y =>
      if x.datum = .nan then y.datum = .nan && a.origin == b.origin else x == y
    | .text s, .text t => s == t
    | .date d, .date e => d.isSame e
    | .bytes s, .bytes t => s == t
    | _, _ => false

/-- An entry put among others: a new key goes to the end, and a known one keeps its
place and takes the new value. -/
def put {α : Type} (key : Key) (value : α) : List (Key × α) → List (Key × α)
  | [] => [(key, value)]
  | (k, v) :: rest =>
    if k.isSame key then (k, value) :: rest else (k, v) :: put key value rest

/-- Entries of which later ones count. -/
def unique {α : Type} (entries : List (Key × α)) : List (Key × α) :=
  entries.foldl (fun all e => put e.1 e.2 all) []

end Key

namespace Value

/-- The value of a text key in a mapping. -/
def entry? (key : String) : Value → Option Value
  | .mapping entries =>
    (entries.find? fun e => match e.1 with
      | .text s => s == key
      | _ => false).map (·.2)
  | _ => none

end Value

end ApiSurface.Yaml
