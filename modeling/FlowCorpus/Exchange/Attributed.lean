import FlowCorpus.Feature.Node
import FlowCorpus.Number.Notation

/-!
# Attributed graphs

A graph in the exchange format: for every node its label and attributes, and for every node the
labels that its edges lead to. An edge from a node to itself is not written; parallel edges all
are.
-/

set_option autoImplicit false

namespace FlowCorpus.Exchange

open FlowCorpus.Feature FlowCorpus.Graph FlowCorpus.Json FlowCorpus.Number

/-- How a node is labelled. -/
inductive NodeLabel where
  | index
  | address
deriving DecidableEq, Repr

namespace NodeLabel

def parse (name : String) : Except Fault NodeLabel :=
  if name = "index" then .ok .index
  else if name = "address" then .ok .address
  else .error (.notAChoice name .nodeLabel)

/-- The label of a node: its number, or its address in base sixteen and ten. -/
def label (mode : NodeLabel) (id : Int) (address : Int) : Value :=
  match mode with
  | .index => .int id
  | .address => .str (hexText address ++ " / " ++ intText address)

end NodeLabel

structure Attributed where
  adjacency : List (List Value)
  nodes : List Value
  directed : Bool := true
  multigraph : Bool := false
  graph : List Value := []

namespace Attributed

def nodeCount (g : Attributed) : Nat :=
  g.nodes.length

def edgeCount (g : Attributed) : Nat :=
  g.adjacency.flatten.length

def toJson (g : Attributed) : Value :=
  .obj [("adjacency", .arr (g.adjacency.map .arr)), ("directed", .bool g.directed),
    ("multigraph", .bool g.multigraph), ("nodes", .arr g.nodes), ("graph", .arr g.graph)]

def elementsOf (value : Value) : Except Fault (List Value) :=
  match value.elements? with
  | some elements => .ok elements
  | none => .error .wrongType

/-- A field that has to be there. -/
def fieldOf (fields : Fields) (key : String) : Except Fault Value :=
  match fields.get? key with
  | some value => .ok value
  | none => .error (.missingKey key)

def flagOf (fields : Fields) (key : String) (default : Bool) : Bool :=
  ((fields.get? key).map Value.isTruthy).getD default

/-- The graph of an object; its elements are taken over as they are. -/
def ofJson : Value → Except Fault Attributed
  | .obj fields => do
    let rows ← elementsOf (← fieldOf fields "adjacency")
    let adjacency ← rows.mapM elementsOf
    let nodes ← elementsOf (← fieldOf fields "nodes")
    let graph ← elementsOf ((Fields.get? fields "graph").getD (.arr []))
    return {
      adjacency
      nodes
      directed := flagOf fields "directed" true
      multigraph := flagOf fields "multigraph" false
      graph }
  | _ => .error .wrongType

/-- The labels of the nodes of a flow, in the order of their numbers. -/
def labels (flow : Flow) (mode : NodeLabel) : List Value :=
  flow.index.addresses.mapIdx fun id address => mode.label id address

def edgeEntry (labels : List Value) (e : Edge) : Value :=
  .obj [("weight", .int e.kind.weight), ("id", (labels[e.target]?).getD .null)]

def edgeEntries (flow : Flow) (labels : List Value) (node : Nat) : List Value :=
  (flow.edges.filter fun e => e.source == node && e.source != e.target).map (edgeEntry labels)

def nodeEntry (label : Value) (attributes : Fields) : Value :=
  .obj (Fields.update [("id", label)] attributes)

def nodeEntries (scheme : Option Scheme) (labels : List Value) (features : List NodeFeature) :
    Except Fault (List Value) :=
  (labels.zip features).mapM fun (label, feature) =>
    return nodeEntry label (← feature.attributes scheme)

def ofFlow (flow : Flow) (labels : List Value) (nodes : List Value) : Attributed where
  adjacency := (List.range flow.nodeCount).map (edgeEntries flow labels)
  nodes := nodes

/-- A flow with the features of its nodes in the exchange format. There have to be as many features
as nodes, and vectors have to be as long as their scheme has fields; otherwise this is reported and
there is no graph. -/
def ofFeatures (flow : Flow) (features : Option (List NodeFeature)) (scheme : Option Scheme)
    (mode : NodeLabel) : Traced (Option Attributed) := do
  let labels := labels flow mode
  match features with
  | none => return some (ofFlow flow labels (labels.map fun label => nodeEntry label []))
  | some features =>
    if features.length = flow.nodeCount then
      match nodeEntries scheme labels features with
      | .ok nodes => return some (ofFlow flow labels nodes)
      | .error fault =>
        if fault.kind = .value then
          Traced.report (.featureLengthMismatch flow.function fault.logText)
          return none
        else throw fault
    else
      Traced.report (.featureCountMismatch flow.function flow.nodeCount features.length)
      return none

end Attributed
end FlowCorpus.Exchange
