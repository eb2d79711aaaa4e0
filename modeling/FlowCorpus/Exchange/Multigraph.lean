import FlowCorpus.Graph.Flow
import FlowCorpus.Json.Basic

/-!
# Multigraphs

Graphs whose nodes are named by values and that keep parallel edges apart by keys. Numbers that are
equal name one node, and so do one and true.
-/

set_option autoImplicit false

namespace FlowCorpus.Exchange

open FlowCorpus.Graph FlowCorpus.Json FlowCorpus.Number FlowCorpus.Text

structure Name where
  value : Value

def asInteger? : Value → Option Int
  | .bool b => some (if b then 1 else 0)
  | .int n => some n
  | .float x => if x.isIntegral then x.toInt? else none
  | _ => none

def sameName (a b : Value) : Bool :=
  match asInteger? a, asInteger? b with
  | some m, some n => m == n
  | none, none =>
    match a, b with
    | .float x, .float y => x.numericEq y
    | .str s, .str t => s == t
    | .null, .null => true
    | _, _ => false
  | _, _ => false

instance : BEq Name where
  beq a b := sameName a.value b.value

structure Link where
  source : Name
  target : Name
  key : Name
  attributes : Fields

/-- A directed graph with parallel edges: nodes in the order in which they were added, and edges in
the order in which they were first linked. -/
structure Multigraph where
  nodes : List (Name × Fields) := []
  links : List Link := []

namespace Multigraph

def names (g : Multigraph) : List Name :=
  g.nodes.map Prod.fst

/-- The graph with a node that has the attributes, set over those it had. -/
def addNode (g : Multigraph) (name : Name) (attributes : Fields) : Multigraph :=
  if g.names.contains name then
    { g with
      nodes := g.nodes.map fun (n, old) =>
        if n == name then (n, old.update attributes) else (n, old) }
  else { g with nodes := g.nodes ++ [(name, attributes)] }

def between (g : Multigraph) (source target : Name) : List Link :=
  g.links.filter fun l => l.source == source && l.target == target

/-- The first key from a number on that is not taken, among the next few. -/
def freeKey (taken : List Name) : Nat → Nat → Nat
  | 0, key => key
  | fuel + 1, key => if taken.contains ⟨.int key⟩ then freeKey taken fuel (key + 1) else key

/-- The key of a new edge: the number of edges between its nodes, or the next one that is free. -/
def newKey (g : Multigraph) (source target : Name) : Name :=
  let taken := (g.between source target).map Link.key
  ⟨.int (freeKey taken taken.length taken.length)⟩

/-- The graph with an edge that has the attributes. Nodes that are missing are added; an edge
between the nodes with the same key is the same edge. -/
def addLink (g : Multigraph) (source target : Name) (key : Option Name) (attributes : Fields) :
    Multigraph :=
  let g := (g.addNode source []).addNode target []
  let key := key.getD (g.newKey source target)
  if (g.between source target).any fun l => l.key == key then
    { g with
      links := g.links.map fun l =>
        if l.source == source && l.target == target && l.key == key then
          { l with attributes := l.attributes.update attributes }
        else l }
  else { g with links := g.links ++ [⟨source, target, key, attributes⟩] }

/-- The targets of the edges from a node, each once, in the order of the first edge. -/
def targets (g : Multigraph) (source : Name) : List Name :=
  (g.links.filter fun l => l.source == source).foldl
    (fun seen l => if seen.contains l.target then seen else seen ++ [l.target]) []

/-- The edges by the order of their sources, then of their targets, then of their keys. -/
def orderedLinks (g : Multigraph) : List Link :=
  g.names.flatMap fun source =>
    (g.targets source).flatMap fun target =>
      (g.between source target).map fun l => { l with source, target }

def nameOf (id : Nat) : Name :=
  ⟨.int id⟩

/-- The multigraph of a flow: nodes with their addresses and edges with their weights. -/
def ofFlow (flow : Flow) : Multigraph :=
  let nodes : List (Name × Fields) := flow.index.addresses.mapIdx fun id address =>
    (nameOf id, [("address", .int address)])
  flow.edges.foldl
    (fun g e => g.addLink (nameOf e.source) (nameOf e.target) none
      [("weight", .int e.kind.weight)])
    ⟨nodes, []⟩

/-- The fields of an entry, which is an object or a list of pairs. -/
def pairOf : Value → Except Fault (Value × Value)
  | .arr [key, value] => .ok (key, value)
  | .arr _ => .error .raggedRows
  | .str s =>
    match s.points with
    | [a, b] => .ok (.str (.ofPoints [a]), .str (.ofPoints [b]))
    | _ => .error .raggedRows
  | .obj [(a, _), (b, _)] => .ok (.str a, .str b)
  | .obj _ => .error .raggedRows
  | _ => .error .wrongType

def nameable : Value → Except Fault Name
  | .arr _ => .error .wrongType
  | .obj _ => .error .wrongType
  | value => .ok ⟨value⟩

/-- An entry with its fields by name; an object has them, and a list of pairs can be read as
such. -/
def entryPairs : Value → Except Fault (List (Name × Value))
  | .obj fields => .ok (fields.map fun (key, value) => (⟨.str key⟩, value))
  | value => do
    match value.elements? with
    | none => throw .wrongType
    | some elements =>
      elements.mapM fun element => do
        let (key, value) ← pairOf element
        return (← nameable key, value)

/-- Pairs as the fields of attributes, whose names have to be texts. -/
def textFields (pairs : List (Name × Value)) : Except Fault Fields :=
  pairs.foldlM
    (fun fields (key, value) =>
      match key.value with
      | .str key => .ok (fields.set key value)
      | _ => .error .wrongType)
    []

def pairValue? (pairs : List (Name × Value)) (key : LooseText) : Option Value :=
  (pairs.reverse.find? fun pair => pair.1 == ⟨.str key⟩).map Prod.snd

/-- The identifier among the fields of an entry and the other ones, none of which may have one of
the reserved names. -/
def splitEntry (reserved : List LooseText) (pairs : List (Name × Value)) :
    Except Fault (Value × Fields) := do
  match pairValue? pairs "id" with
  | none => throw (.missingKey "id")
  | some id =>
    let fields ← textFields (pairs.filter fun pair => !(pair.1 == ⟨.str "id"⟩))
    if reserved.any fun key => (Fields.get? fields key).isSome then throw .wrongType
    else return (id, fields)

/-- A node name: it can be looked up and is not null. -/
def nodeName (id : Value) : Except Fault Name := do
  let name ← nameable id
  match name.value with
  | .null => throw .nullNode
  | _ => return name

def addNodeEntry (g : Multigraph) (entry : Value) : Except Fault Multigraph := do
  let (id, attributes) ← splitEntry ["self", "node_for_adding"] (← entryPairs entry)
  return g.addNode (← nodeName id) attributes

/-- The key under which an edge entry asks to be kept, unless that is null. -/
def askedKey (attributes : Fields) : Except Fault (Option Name) :=
  match Fields.get? attributes "key" with
  | none => .ok none
  | some .null => .ok none
  | some value => some <$> nameable value

/-- The identifier of a node entry, which has to be an object. -/
def entryId : Value → Except Fault Value
  | .obj fields =>
    match Fields.get? fields "id" with
    | some id => .ok id
    | none => .error (.missingKey "id")
  | _ => .error .wrongType

/-- The graph with the edge of an entry from the node of another entry. -/
def addLinkEntry (node : Value) (g : Multigraph) (entry : Value) : Except Fault Multigraph := do
  let pairs ← entryPairs entry
  let source ← entryId node
  let (id, attributes) ← splitEntry ["self", "u_for_edge", "v_for_edge"] pairs
  let source ← nodeName source
  let target ← nodeName id
  let key ← askedKey attributes
  return g.addLink source target key (attributes.erase "key")

/-- The graph that an object with nodes and adjacency holds. Every row of the adjacency belongs to
the node at its place; what one of the two has more is left out. -/
def ofFields (nodes adjacency : Value) : Except Fault Multigraph := do
  match nodes.elements? with
  | none => throw .wrongType
  | some entries =>
    let g ← entries.foldlM addNodeEntry {}
    match adjacency.elements? with
    | none => throw .wrongType
    | some rows =>
      (entries.zip rows).foldlM
        (fun g (node, row) =>
          match row.elements? with
          | none => throw .wrongType
          | some targets => targets.foldlM (addLinkEntry node) g)
        g

end Multigraph
end FlowCorpus.Exchange
