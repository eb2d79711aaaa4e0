import FlowCorpus.Exchange.CallTree
import FlowCorpus.Proofs.Graph.CallTree

/-!
# Call trees as they are written

The exchange format of a tree has every call of the tree once, in the row of the node that makes it.
Written after one hop, it has one call less than it has nodes.
-/

set_option autoImplicit false

namespace FlowCorpus.Exchange.Attributed

open FlowCorpus.Graph FlowCorpus.Json FlowCorpus.Program

/-- The nodes of a graph are numbered and have the names of a tree, and its rows are the calls of
the tree: all of them, none twice, and each in the row of its source, with no weight and the number
of its target. -/
structure ListsCalls (tree : CallTree) (exported : Attributed) : Prop where
  nodes : exported.nodes = tree.names.mapIdx fun (id : Nat) (name : String) =>
    .obj [("id", .int id), ("func_name", .str name)]
  counted : exported.nodeCount = tree.names.length
  edges : exported.edgeCount = tree.calls.length
  once : tree.calls.Nodup
  rows : ∃ rows : List (List Call),
    exported.adjacency = rows.map (List.map fun call : Call =>
      .obj [("weight", .int 0), ("id", .int call.target)]) ∧
    rows.length = tree.names.length ∧ rows.flatten.Perm tree.calls ∧
    ∀ (node : Nat) (row : List Call), rows[node]? = some row → ∀ call ∈ row, call.source = node

theorem listsCalls_ofCallTree {tree : CallTree} {height : Nat} (isTree : tree.IsTree height) :
    ListsCalls tree (ofCallTree tree) := by
  let rows := (List.range tree.names.length).map tree.callsFrom
  have written : (ofCallTree tree).adjacency = rows.map (List.map callEntry) := by
    simp only [ofCallTree, rows, List.map_map, Function.comp_def]
  have all : rows.flatten.Perm tree.calls := by
    rw [← List.flatMap_def]
    exact isTree.orderedCalls_perm
  refine ⟨rfl, by simp [nodeCount, ofCallTree], ?_, isTree.nodup_calls, rows, written,
    by simp [rows], all, fun node row stands call made => ?_⟩
  · calc (ofCallTree tree).edgeCount
        = (rows.flatten.map callEntry).length := by rw [edgeCount, written, List.map_flatten]
      _ = tree.calls.length := by rw [List.length_map, all.length_eq]
  · obtain ⟨inside, own⟩ := List.getElem?_eq_some_iff.mp stands
    simp only [rows, List.getElem_map, List.getElem_range] at own
    subst own
    exact beq_iff_eq.mp (List.mem_filter.mp made).2

/-- One hop on from a record is a tree whose nodes are the record, its callees and theirs, and the
exchange format has each of its calls once. -/
theorem ofCallTree_oneHop (known : String → Option CallRecord) (record : CallRecord) :
    (CallTree.oneHop known record).IsOneHop known record ∧
    (CallTree.oneHop known record).IsTree 2 ∧
    ListsCalls (CallTree.oneHop known record) (ofCallTree (CallTree.oneHop known record)) ∧
    (ofCallTree (CallTree.oneHop known record)).edgeCount + 1 =
      (ofCallTree (CallTree.oneHop known record)).nodeCount := by
  have isTree := CallTree.isTree_oneHop known record
  have lists := listsCalls_ofCallTree isTree
  refine ⟨CallTree.isOneHop_oneHop known record, isTree, lists, ?_⟩
  rw [lists.edges, lists.counted, CallTree.length_calls_oneHop]

end FlowCorpus.Exchange.Attributed
