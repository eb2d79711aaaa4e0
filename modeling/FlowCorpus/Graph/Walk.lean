import FlowCorpus.Graph.Flow

/-!
# Depth-first walks

The nodes reachable from a start in depth-first preorder: a node is entered before its successors,
which are entered in the order in which they were first linked.
-/

set_option autoImplicit false

namespace FlowCorpus.Graph

/-- The nodes entered so far, and then those entered from a node that is new. The fuel bounds the
depth; no path enters a node twice, so the number of nodes is enough. -/
def enter (successors : Nat → List Nat) : Nat → List Nat → Nat → List Nat
  | 0, entered, _ => entered
  | depth + 1, entered, node =>
    if entered.contains node then entered
    else (successors node).foldl (enter successors depth) (entered ++ [node])

def Flow.preorder (flow : Flow) (start : Nat) : List Nat :=
  enter flow.successors flow.nodeCount [] start

/-- The first nodes of the preorder, at most the given number; none for a negative one. -/
def Flow.walk (flow : Flow) (length : Int) (start : Nat) : List Nat :=
  (flow.preorder start).take length.toNat

end FlowCorpus.Graph
