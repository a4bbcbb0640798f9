/-
ApiSurface.Yaml.Merge — entries that mappings take over from others.

The value of a merge key is a mapping, or a sequence of mappings. Their entries
take the place of the key: they go in front of the mapping's own entries, so that
these count more, and the first mapping of a sequence counts more than the
others. A mapping that is taken over takes over first what it asks for itself.
The key whose text is an equals sign is a plain text after that.

Every merge key is removed before what it names is looked into. So this comes to
an end, also where a mapping asks for its own entries, and no merge key is left.
-/
import ApiSurface.Yaml.Node

namespace ApiSurface.Yaml.Nodes

/-- The value of the first merge key among some entries, and all other entries. -/
def splitMerge (nodes : Nodes) : List (Nat × Nat) → Option (Nat × List (Nat × Nat))
  | [] => none
  | (key, value) :: rest =>
    if nodes.tag key = .merge then some (value, rest)
    else (splitMerge nodes rest).map fun found => (found.1, (key, value) :: found.2)

/-- The nodes with texts for those keys of some entries that are equals signs. -/
def withPlainKeys (nodes : Nodes) (entries : List (Nat × Nat)) : Nodes :=
  entries.foldl (fun nodes entry =>
    if nodes.tag entry.1 = .value then nodes.setTag entry.1 .text else nodes) nodes

/-- A way to carry out the merge keys of a mapping. -/
abbrev Merging := Nat → Nodes → Except Fault Nodes

/-- The entries of some mappings, of which the first count most, and the nodes after
their merge keys have been carried out. -/
def takenFromAll (merging : Merging) :
    List Nat → Nodes → Except Fault (List (Nat × Nat) × Nodes)
  | [], nodes => .ok ([], nodes)
  | n :: rest, nodes =>
    match nodes.content n with
    | .mapping _ => do
      let nodes ← merging n nodes
      let here := nodes.entries n
      let (others, nodes) ← takenFromAll merging rest nodes
      return (others ++ here, nodes)
    | _ => .error .malformed

/-- The entries that a merge key takes over from its value. -/
def takenFrom (merging : Merging) (value : Nat) (nodes : Nodes) :
    Except Fault (List (Nat × Nat) × Nodes) :=
  match nodes.content value with
  | .mapping _ => takenFromAll merging [value] nodes
  | .sequence items => takenFromAll merging items nodes
  | .scalar _ => .error .malformed

/-- The nodes after some of the merge keys of a mapping have been carried out, and all
if there are not more of them in the document. -/
def mergeUpTo : Nat → Merging
  | 0 => fun _ nodes => .ok nodes
  | count + 1 => fun n nodes =>
    match nodes.splitMerge (nodes.entries n) with
    | none => .ok (nodes.withPlainKeys (nodes.entries n))
    | some (value, others) => do
      let (taken, nodes) ←
        takenFrom (mergeUpTo count) value (nodes.setContent n (.mapping others))
      let nodes ← mergeUpTo count n nodes
      return nodes.setContent n (.mapping (taken ++ nodes.entries n))

end ApiSurface.Yaml.Nodes
