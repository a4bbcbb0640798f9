/-
ApiSurface.Yaml.Meaning — what a YAML document says.

The meaning of every node is found once, so an alias means the same thing as the
node that it mentions. A collection has a meaning before its items have theirs:
collections wait, and are filled in the order in which they were met, each level
of the document behind the one around it. So a collection may hold itself, and of
two faults at different depths the outer one is found.

The value of a document is a tree that ends at a given depth: deeper collections
are not looked into.
-/
import ApiSurface.Yaml.Merge
import ApiSurface.Yaml.Value

namespace ApiSurface.Yaml

/-- The kinds of collections. -/
inductive Shape where
  | list
  | mapping
  | set
  /-- Pairs in a row, each written as a mapping of one key. -/
  | pairs
deriving DecidableEq

/-- The kind of collection that a tag asks for. -/
def Shape.ofTag? : Tag → Option Shape
  | .sequence => some list
  | .mapping => some mapping
  | .set => some set
  | .orderedMapping | .pairs => some pairs
  | _ => none

/-- What a node is. -/
inductive Meaning where
  | scalar (key : Key)
  | collection (shape : Shape)

/-- A document some nodes of which have meanings. -/
structure Interpretation where
  nodes : Nodes
  /-- The meanings of nodes, where they are found. -/
  meanings : Array (Option Meaning)
  /-- The collections that are met and not yet filled, the last one first. -/
  waiting : List (Nat × Shape)

/-- A computation that finds meanings. -/
abbrev Interpret := StateT Interpretation (Except Fault)

namespace Interpretation

/-! ## 1. Scalars -/

/-- The text of a scalar. A mapping stands for the value of its first key that is an
equals sign. -/
def textOf (nodes : Nodes) : Nat → Nat → Except Fault String
  | 0, _ => .error .endlessText
  | fuel + 1, n =>
    match nodes.content n with
    | .scalar text => .ok text
    | .sequence _ => .error .malformed
    | .mapping entries =>
      match entries.find? fun entry => nodes.tag entry.1 = .value with
      | some (_, value) => textOf nodes fuel value
      | none => .error .malformed

/-- Whether a node is a text itself. -/
def isText (nodes : Nodes) (n : Nat) : Bool :=
  match nodes.content n with
  | .scalar _ => true
  | _ => false

/-- What a node with the tag of a scalar is. -/
def scalarAt (nodes : Nodes) (n : Nat) : Except Fault Key := do
  let tag := nodes.tag n
  if [Tag.merge, .value, .unknown].contains tag then throw .malformed
  let text ← textOf nodes (nodes.size + 1) n
  if tag = .date && !isText nodes n then throw .dateOfMapping
  return ⟨← scalarValue tag text, if isNanWord text then none else some n⟩

/-! ## 2. Collections -/

/-- The meaning of a node, found now unless it was before. A collection that is met for
the first time waits to be filled. -/
def meaningAt (n : Nat) : Interpret Meaning := do
  let i ← get
  match i.meanings[n]?.join with
  | some meaning => return meaning
  | none =>
    match Shape.ofTag? (i.nodes.tag n) with
    | some shape => do
      let meaning := Meaning.collection shape
      modify fun i => { i with
        meanings := i.meanings.setIfInBounds n (some meaning)
        waiting := (n, shape) :: i.waiting }
      return meaning
    | none => do
      let meaning := Meaning.scalar (← scalarAt i.nodes n)
      modify fun i => { i with meanings := i.meanings.setIfInBounds n (some meaning) }
      return meaning

/-- Finds the meanings of a key and its value. A collection cannot be a key. -/
def fillEntry (entry : Nat × Nat) : Interpret Unit := do
  match ← meaningAt entry.1 with
  | .collection _ => throw .malformed
  | .scalar _ => discard (meaningAt entry.2)

/-- Finds the meanings of a pair, which may have any key. -/
def fillPair (n : Nat) : Interpret Unit := do
  match (← get).nodes.content n with
  | .mapping [(key, value)] => do
    discard (meaningAt key)
    discard (meaningAt value)
  | _ => throw .malformed

/-- Carries out the merge keys of a mapping. -/
def carryOutMerges (n : Nat) : Interpret Unit := do
  let i ← get
  let nodes ← i.nodes.mergeUpTo (i.nodes.entryCount + 1) n
  set { i with nodes := nodes }

/-- Finds the meanings of what a collection holds. -/
def fill (n : Nat) (shape : Shape) : Interpret Unit := do
  match shape, (← get).nodes.content n with
  | .list, .sequence items => items.forM fun item => discard (meaningAt item)
  | .pairs, .sequence items => items.forM fillPair
  | .mapping, .mapping _ | .set, .mapping _ => do
    carryOutMerges n
    ((← get).nodes.entries n).forM fillEntry
  | _, _ => throw .malformed

/-- Fills the collections that wait, and then those that were met on the way. A
document has no more such rounds than nodes. -/
def fillAll : Nat → Interpret Unit
  | 0 => return
  | rounds + 1 => do
    let met := (← get).waiting
    if met.isEmpty then return
    modify fun i => { i with waiting := [] }
    met.reverse.forM fun (n, shape) => fill n shape
    fillAll rounds

/-! ## 3. Values -/

/-- The meaning of a node as a key. -/
def key? (i : Interpretation) (n : Nat) : Option Key :=
  match i.meanings[n]?.join with
  | some (.scalar key) => some key
  | _ => none

/-- The entries of a mapping with their keys, of which later ones count. -/
def entriesAt (i : Interpretation) (n : Nat) : List (Key × Nat) :=
  Key.unique ((i.nodes.entries n).filterMap fun entry => (i.key? entry.1).map (·, entry.2))

/-- The value of a node as far as a given depth. -/
def valueAt (i : Interpretation) : Nat → Nat → Value
  | depth, n =>
    match i.meanings[n]?.join, depth with
    | some (.scalar key), _ => key.value
    | some (.collection .list), depth + 1 =>
      match i.nodes.content n with
      | .sequence items => .list (items.map (i.valueAt depth))
      | _ => .opaqueValue
    | some (.collection .mapping), depth + 1 =>
      .mapping ((i.entriesAt n).map fun entry => (entry.1.value, i.valueAt depth entry.2))
    | _, _ => .opaqueValue

end Interpretation

/-- What a document says, as far as a given depth. -/
def Document.value (d : Document) (depth : Nat) : Except Fault Value := do
  let start : Interpretation := ⟨d.nodes, Array.replicate d.nodes.size none, []⟩
  let (_, i) ← (do
    discard (Interpretation.meaningAt d.root)
    Interpretation.fillAll (d.nodes.size + 1) : Interpret Unit).run start
  return i.valueAt depth d.root

/-- Characters that a text may hold. -/
def isAllowed (c : Char) : Bool :=
  let n := c.toNat
  n == 9 || n == 10 || n == 13 || (0x20 ≤ n && n ≤ 0x7E) || n == 0x85
    || (0xA0 ≤ n && n ≤ 0xD7FF) || (0xE000 ≤ n && n ≤ 0xFFFD) || 0x10000 ≤ n

/-- What a text says, as far as a given depth. An empty document says nothing. -/
def read (depth : Nat) (text : List Char) : Except Fault Value := do
  if !text.all isAllowed then throw .malformed
  match ← Document.ofText? text with
  | some d => d.value depth
  | none => return .nothing

end ApiSurface.Yaml
