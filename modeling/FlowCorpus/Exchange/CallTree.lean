import FlowCorpus.Exchange.Attributed
import FlowCorpus.Graph.CallTree

/-!
# Call trees in the exchange format

Every node has the name of its function, and every call stands under the node that makes it.
-/

set_option autoImplicit false

namespace FlowCorpus.Exchange.Attributed

open FlowCorpus.Graph FlowCorpus.Json

def functionEntry (id : Nat) (name : String) : Value :=
  .obj [("id", .int id), ("func_name", .str name)]

def callEntry (call : Call) : Value :=
  .obj [("weight", .int CallTree.callWeight), ("id", .int call.target)]

def ofCallTree (tree : CallTree) : Attributed where
  adjacency := (List.range tree.names.length).map fun node =>
    (tree.callsFrom node).map callEntry
  nodes := tree.names.mapIdx functionEntry

end FlowCorpus.Exchange.Attributed
