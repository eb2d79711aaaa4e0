import FlowCorpus.Yaml.Node

/-!
# Merged fields

A mapping may ask for the fields of other mappings, which then stand in front of its own. It is
changed in place, so that it is merged wherever it stands.
-/

set_option autoImplicit false

namespace FlowCorpus.Yaml

abbrev Build (σ α : Type) := StateT σ (Except Failure) α

namespace Nodes

/-- The fields of a mapping; other nodes have none. -/
def fieldsOf (nodes : Nodes) (id : NodeId) : List (NodeId × NodeId) :=
  match (nodes.node id).content with
  | .fields entries => entries
  | _ => []

def isMapping (nodes : Nodes) (id : NodeId) : Bool :=
  (nodes.node id).content matches .fields _

/-- Stops since something else than a mapping was to be merged into a mapping. -/
def failMerge {α : Type} (nodes : Nodes) (id other : NodeId) (what : String) :
    Build Nodes α :=
  let found := nodes.node other
  throw (.problem (.located (some (.mapping, some (nodes.node id).start))
    (.expected what found.content.kindName) found.start))

mutual

def merge : Nat → NodeId → Build Nodes Unit
  | 0, _ => throw (.fault .tooDeep)
  | fuel + 1, id => do
    let merged ← mergeEntries fuel id ((← get).fieldsOf id)
    modify fun nodes =>
      if merged.isEmpty then nodes
      else nodes.setContent id (.fields (merged ++ nodes.fieldsOf id))

/-- The fields that entries of a mapping ask for. An entry that asks for fields is taken out of the
mapping first, and it asks only once. -/
def mergeEntries : Nat → NodeId → List (NodeId × NodeId) → Build Nodes (List (NodeId × NodeId))
  | _, _, [] => return []
  | 0, _, _ => throw (.fault .tooDeep)
  | fuel + 1, id, entry :: rest => do
    let nodes ← get
    match (nodes.node entry.1).tag with
    | .merge =>
      if (nodes.fieldsOf id).contains entry then do
        set (nodes.setContent id (.fields ((nodes.fieldsOf id).erase entry)))
        let merged ← mergedFields fuel id entry.2
        return merged ++ (← mergeEntries fuel id rest)
      else mergeEntries fuel id rest
    | .value => do
      set (nodes.setTag entry.1 .text)
      mergeEntries fuel id rest
    | _ => mergeEntries fuel id rest

/-- The fields of a node that is to be merged into a mapping: of a mapping, or of several ones in a
list, of which the last ones come first. -/
def mergedFields : Nat → NodeId → NodeId → Build Nodes (List (NodeId × NodeId))
  | 0, _, _ => throw (.fault .tooDeep)
  | fuel + 1, id, other => do
    match ((← get).node other).content with
    | .fields _ => do
      merge fuel other
      return (← get).fieldsOf other
    | .items parts => do
      let fields ← partFields fuel id parts
      return fields.reverse.flatten
    | .scalar _ =>
      failMerge (← get) id other "a mapping or list of mappings for merging"

def partFields : Nat → NodeId → List NodeId → Build Nodes (List (List (NodeId × NodeId)))
  | _, _, [] => return []
  | 0, _, _ => throw (.fault .tooDeep)
  | fuel + 1, id, part :: rest => do
    if (← get).isMapping part then do
      merge fuel part
      let fields := (← get).fieldsOf part
      return fields :: (← partFields fuel id rest)
    else failMerge (← get) id part "a mapping for merging"

end

end Nodes
end FlowCorpus.Yaml
