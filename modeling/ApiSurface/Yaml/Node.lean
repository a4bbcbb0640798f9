/-
ApiSurface.Yaml.Node — YAML text as a document.

A document is a table of nodes, in the order in which they begin, and one of them
is its root. A node is a scalar, a sequence or a mapping, with the tag that it
has or that its text gives it. A node holds others by their numbers, so an alias
is one more mention of the node that its anchor marks, also inside of that node.

A text holds one document at most, with directives before it.
-/
import ApiSurface.Yaml.Tag
import ApiSurface.Yaml.Token

namespace ApiSurface.Yaml

/-- What a node holds. -/
inductive Content where
  | scalar (text : String)
  | sequence (items : List Nat)
  | mapping (entries : List (Nat × Nat))
deriving DecidableEq

/-- A tagged node. -/
structure Node where
  tag : Tag
  content : Content
deriving DecidableEq

/-- The nodes of a document by their numbers. -/
abbrev Nodes := Array Node

namespace Nodes

/-- The content of a node. A number that is out of use counts as an empty text. -/
def content (nodes : Nodes) (n : Nat) : Content := (nodes[n]?.map (·.content)).getD (.scalar "")

/-- The tag of a node. -/
def tag (nodes : Nodes) (n : Nat) : Tag := (nodes[n]?.map (·.tag)).getD .nothing

/-- The nodes with another content of one of them. -/
def setContent (nodes : Nodes) (n : Nat) (content : Content) : Nodes :=
  nodes.modify n fun node => { node with content := content }

/-- The nodes with another tag of one of them. -/
def setTag (nodes : Nodes) (n : Nat) (tag : Tag) : Nodes :=
  nodes.modify n fun node => { node with tag := tag }

/-- The entries of a mapping. -/
def entries (nodes : Nodes) (n : Nat) : List (Nat × Nat) :=
  match nodes.content n with
  | .mapping entries => entries
  | _ => []

/-- The count of all entries of mappings. -/
def entryCount (nodes : Nodes) : Nat :=
  nodes.foldl (fun count node =>
    match node.content with
    | .mapping entries => count + entries.length
    | _ => count) 0

end Nodes

/-- A table of nodes with its root. -/
structure Document where
  nodes : Nodes
  root : Nat

/-- The tokens that are left, and what those before have said. -/
structure Reading where
  lexer : Lexer
  /-- The meanings of tag handles. -/
  handles : List (String × String)
  /-- The nodes with anchors. -/
  anchors : List (String × Nat)
  /-- The nodes that have begun. -/
  nodes : Nodes

/-- A computation that takes tokens. -/
abbrev Read := StateT Reading (Except Fault)

namespace Node

/-! ## 1. Steps -/

/-- The text is malformed. -/
def refuse {α : Type} : Read α := throw .malformed

/-- The next token. -/
def next : Read Token := do
  let r ← get
  let (t, lexer) ← r.lexer.first
  set { r with lexer := lexer }
  return t

/-- Takes the next token, which has been looked at. -/
def take : Read Unit := modify fun r => { r with lexer := r.lexer.dropFirst }

/-- Takes the next token if it is the given one. -/
def takeIf (t : Token) : Read Bool := do
  if (← next) = t then do
    take
    return true
  else return false

/-- Takes the next token, which must be the given one. -/
def expect (t : Token) : Read Unit := do
  if !(← takeIf t) then refuse

/-- Whether the next token is one of the given ones. -/
def nextIn (ts : List Token) : Read Bool := return ts.contains (← next)

/-- A new node; the answer is its number. -/
def begin (tag : Tag) (content : Content) : Read Nat :=
  modifyGet fun r => (r.nodes.size, { r with nodes := r.nodes.push ⟨tag, content⟩ })

/-- Gives a collection that has begun what it holds. -/
def complete (n : Nat) (content : Content) : Read Unit :=
  modify fun r => { r with nodes := r.nodes.setContent n content }

/-- The node of a missing scalar. -/
def missing : Read Nat := begin .nothing (.scalar "")

/-- A comma, unless the first entry of a collection is next. -/
def comma (isFirst : Bool) : Read Unit := do
  if !isFirst then expect .flowEntry

/-! ## 2. Properties -/

/-- The anchor and the tag of a node, as they are written. -/
structure Properties where
  anchor : Option String
  /-- The name of the tag; a lone exclamation mark leaves it open. -/
  tag : Option String

/-- The anchor at the front, if there is one. -/
def anchor? : Read (Option String) := do
  match ← next with
  | .anchor name => do take; return some name
  | _ => return none

/-- The tag at the front, if there is one: its handle and the rest. -/
def tag? : Read (Option (Option String × String)) := do
  match ← next with
  | .tag handle suffix => do take; return some (handle, suffix)
  | _ => return none

/-- The name that a written tag stands for. -/
def tagName : Option String × String → Read String
  | (none, suffix) => return suffix
  | (some handle, suffix) => do
    match (← get).handles.lookup handle with
    | some meaning => return meaning ++ suffix
    | none => refuse

/-- The properties of a node, in either order. What the tag stands for is looked up
behind both of them. -/
def properties : Read Properties := do
  match ← anchor? with
  | some name => do
    let tag ← tag?
    return ⟨some name, ← tag.mapM tagName⟩
  | none =>
    match ← tag? with
    | some tag => do
      let anchor ← anchor?
      return ⟨anchor, some (← tagName tag)⟩
    | none => return ⟨none, none⟩

/-- The name of the tag, unless it is left open. -/
def Properties.name? (p : Properties) : Option String := p.tag.filter (· != "!")

/-- The tag of a collection. -/
def Properties.tagOr (p : Properties) (usual : Tag) : Tag :=
  match p.name? with
  | some name => Tag.ofName name
  | none => usual

/-- The tag of a scalar. A scalar that is not plain is a text, unless its tag is left
open by an exclamation mark. -/
def Properties.tagOf (p : Properties) (isPlain : Bool) (text : String) : Tag :=
  match p.tag with
  | none => if isPlain then Tag.ofPlain text else .text
  | some "!" => Tag.ofPlain text
  | some name => Tag.ofName name

/-- An anchor must not be used twice. -/
def checkNew (anchor : Option String) : Read Unit := do
  if (← get).anchors.any fun entry => some entry.1 == anchor then refuse

/-- A new node, which its anchor marks. -/
def beginAs (p : Properties) (tag : Tag) (content : Content) : Read Nat := do
  let n ← begin tag content
  if let some name := p.anchor then
    modify fun r => { r with anchors := (name, n) :: r.anchors }
  return n

/-- The node that an alias stands for. -/
def aliased (name : String) : Read Nat := do
  match (← get).anchors.lookup name with
  | some n => return n
  | none => refuse

/-! ## 3. Nodes -/

mutual

/-- A node. Block collections are among the possible ones only outside of brackets, and
a sequence without indentation only as an entry of a mapping. -/
def read (inBlock mayBeFlat : Bool) : Nat → Read Nat
  | 0 => refuse
  | fuel + 1 => do
    match ← next with
    | .alias name => do
      take
      aliased name
    | _ => do
      let p ← properties
      let t ← next
      checkNew p.anchor
      body inBlock mayBeFlat p t fuel

/-- What stands behind the properties of a node. -/
def body (inBlock mayBeFlat : Bool) (p : Properties) (t : Token) : Nat → Read Nat
  | 0 => refuse
  | fuel + 1 => do
    match t with
    | .blockEntry =>
      if mayBeFlat then sequence (flatSequence fuel) else nothing
    | .scalar isPlain text => do
      take
      beginAs p (p.tagOf isPlain text) (.scalar text)
    | .flowSequenceStart => do
      take
      sequence (flowSequence true fuel)
    | .flowMappingStart => do
      take
      mapping (flowMapping true fuel)
    | .blockSequenceStart =>
      if inBlock then do
        take
        sequence (blockSequence fuel)
      else nothing
    | .blockMappingStart =>
      if inBlock then do
        take
        mapping (blockMapping fuel)
      else nothing
    | _ => nothing
where
  /-- A node that is missing altogether has its properties only. -/
  nothing : Read Nat :=
    if p.anchor.isSome || p.tag.isSome then beginAs p (p.tagOf true "") (.scalar "") else refuse
  /-- A sequence with the given items. -/
  sequence (items : Read (List Nat)) : Read Nat := do
    let n ← beginAs p (p.tagOr .sequence) (.sequence [])
    complete n (.sequence (← items))
    return n
  /-- A mapping with the given entries. -/
  mapping (entries : Read (List (Nat × Nat))) : Read Nat := do
    let n ← beginAs p (p.tagOr .mapping) (.mapping [])
    complete n (.mapping (← entries))
    return n

/-- A node, or a missing one if one of the given tokens is next. -/
def readUnless (ends : List Token) (inBlock mayBeFlat : Bool) : Nat → Read Nat
  | 0 => refuse
  | fuel + 1 => do
    if ← nextIn ends then missing else read inBlock mayBeFlat fuel

/-- The value behind a key, or a missing one. -/
def valueUnless (ends : List Token) (inBlock mayBeFlat : Bool) : Nat → Read Nat
  | 0 => refuse
  | fuel + 1 => do
    if ← takeIf .value then readUnless ends inBlock mayBeFlat fuel else missing

/-- The entries of a block sequence. -/
def blockSequence : Nat → Read (List Nat)
  | 0 => refuse
  | fuel + 1 => do
    if ← takeIf .blockEntry then do
      let n ← readUnless [.blockEntry, .blockEnd] true false fuel
      return n :: (← blockSequence fuel)
    else do
      expect .blockEnd
      return []

/-- The entries of a sequence without indentation, which nothing closes. -/
def flatSequence : Nat → Read (List Nat)
  | 0 => refuse
  | fuel + 1 => do
    if ← takeIf .blockEntry then do
      let n ← readUnless [.blockEntry, .key, .value, .blockEnd] true false fuel
      return n :: (← flatSequence fuel)
    else return []

/-- The entries of a block mapping. -/
def blockMapping : Nat → Read (List (Nat × Nat))
  | 0 => refuse
  | fuel + 1 => do
    let ends := [Token.key, .value, .blockEnd]
    if ← takeIf .key then do
      let key ← readUnless ends true true fuel
      let value ← valueUnless ends true true fuel
      return (key, value) :: (← blockMapping fuel)
    else do
      expect .blockEnd
      return []

/-- The entries of a sequence in brackets. An entry may be a mapping of one key. -/
def flowSequence (isFirst : Bool) : Nat → Read (List Nat)
  | 0 => refuse
  | fuel + 1 => do
    if ← takeIf .flowSequenceEnd then return []
    comma isFirst
    if ← takeIf .flowSequenceEnd then return []
    if ← takeIf .key then do
      let n ← begin .mapping (.mapping [])
      let ends := [Token.flowEntry, .flowSequenceEnd]
      let key ← readUnless (.value :: ends) false false fuel
      let value ← valueUnless ends false false fuel
      complete n (.mapping [(key, value)])
      return n :: (← flowSequence false fuel)
    else do
      let n ← read false false fuel
      return n :: (← flowSequence false fuel)

/-- The entries of a mapping in brackets. An entry may be a key alone. -/
def flowMapping (isFirst : Bool) : Nat → Read (List (Nat × Nat))
  | 0 => refuse
  | fuel + 1 => do
    if ← takeIf .flowMappingEnd then return []
    comma isFirst
    if ← takeIf .flowMappingEnd then return []
    if ← takeIf .key then do
      let ends := [Token.flowEntry, .flowMappingEnd]
      let key ← readUnless (.value :: ends) false false fuel
      let value ← valueUnless ends false false fuel
      return (key, value) :: (← flowMapping false fuel)
    else do
      let key ← read false false fuel
      let value ← missing
      return (key, value) :: (← flowMapping false fuel)

end

/-! ## 4. Documents -/

/-- The meanings that tag handles have without a directive. -/
def usualHandles : List (String × String) := [("!", "!"), ("!!", Tag.common)]

/-- The directives before a document: whether there was one for the version, and the
handles that they give a meaning. -/
def directives (hasVersion : Bool) (handles : List (String × String)) :
    Nat → Read (List (String × String))
  | 0 => refuse
  | fuel + 1 => do
    match ← next with
    | .versionDirective major => do
      take
      if hasVersion || major != 1 then refuse
      directives true handles fuel
    | .tagDirective handle meaning => do
      take
      if handles.any (·.1 == handle) then refuse
      directives hasVersion ((handle, meaning) :: handles) fuel
    | .reservedDirective => do
      take
      directives hasVersion handles fuel
    | _ => return handles

/-- Skips the marks of the ends of documents. -/
def skipEnds : Nat → Read Unit
  | 0 => return
  | fuel + 1 => do
    if ← takeIf .documentEnd then skipEnds fuel

/-- Whether the start of a document is written out. -/
def startsWithMark : Token → Bool
  | .versionDirective _ | .tagDirective _ _ | .reservedDirective | .documentStart => true
  | _ => false

/-- A document whose start is written out. -/
def markedDocument (fuel : Nat) : Read Nat := do
  let handles ← directives false [] fuel
  modify fun r => { r with handles := handles ++ usualHandles }
  expect .documentStart
  match ← next with
  | .documentEnd | .streamEnd => missing
  | t => if startsWithMark t then missing else read true false fuel

/-- What may follow a document: marks of its end, and the end of the text. Behind
anything else a fault is sure, and only directives are looked at to find out which. -/
def endOfText (fuel : Nat) : Read Unit := do
  skipEnds fuel
  if (← next) != .streamEnd then
    let _ ← directives false [] fuel
    refuse

/-- The root of the only document, if the text has one. -/
def root? (fuel : Nat) : Read (Option Nat) := do
  let first ← next
  if first = .streamEnd then return none
  let n ← if startsWithMark first then markedDocument fuel else read true false fuel
  endOfText fuel
  return some n

end Node

/-- A bound on the steps in which a text is read: a character starts only so many
tokens, and every token is met at the end of only so many steps. -/
def Document.stepBound (text : List Char) : Nat := 24 * text.length + 48

/-- The document in a text, if there is one. -/
def Document.ofText? (text : List Char) : Except Fault (Option Document) := do
  let (root, r) ← (Node.root? (stepBound text)).run ⟨.start text, Node.usualHandles, [], #[]⟩
  return root.map (⟨r.nodes, ·⟩)

end ApiSurface.Yaml
