import FlowCorpus.Yaml.Scalar

/-!
# Nodes

The nodes of a document. Nodes are numbered, and a node that has several names is one node: what is
changed in it is changed wherever it stands. A node may even lie within itself.
-/

set_option autoImplicit false

namespace FlowCorpus.Yaml

abbrev NodeId := Nat

/-- What a node holds: the characters of a scalar, items, or fields. -/
inductive NodeContent where
  | scalar (t : ScalarText)
  | items (nodes : List NodeId)
  | fields (entries : List (NodeId × NodeId))
deriving Repr

def NodeContent.kindName : NodeContent → String
  | .scalar _ => "scalar"
  | .items _ => "sequence"
  | .fields _ => "mapping"

structure Node where
  tag : Tag
  content : NodeContent
  start : Place
deriving Repr

instance : Inhabited Node :=
  ⟨⟨.null, .scalar ⟨[], false⟩, {}⟩⟩

abbrev Nodes := Array Node

def Nodes.node (nodes : Nodes) (id : NodeId) : Node :=
  nodes[id]?.getD default

def Nodes.setContent (nodes : Nodes) (id : NodeId) (content : NodeContent) : Nodes :=
  nodes.modify id fun node => { node with content }

def Nodes.setTag (nodes : Nodes) (id : NodeId) (tag : Tag) : Nodes :=
  nodes.modify id fun node => { node with tag }

def nestingLimit : Nat := 480

end FlowCorpus.Yaml
