import FlowCorpus.Program.CallRecord

/-!
# Call trees

A function, the functions it calls and, one hop on, the functions that these call. Every call gets
a node of its own, so the graph is a tree with the function at its root. Nodes are numbered in the
order in which they are added.
-/

set_option autoImplicit false

namespace FlowCorpus.Graph

open FlowCorpus.Program

structure Call where
  source : Nat
  target : Nat
deriving DecidableEq, Repr

/-- A tree of calls: the names of its nodes by number, and its calls in order. -/
structure CallTree where
  names : List String
  calls : List Call
deriving DecidableEq, Repr

namespace CallTree

def callWeight : Nat := 0

def root (name : String) : CallTree :=
  ⟨[name], []⟩

/-- The tree with a new node for every callee, called by a node that is there. -/
def addCalls (tree : CallTree) (source : Nat) (callees : List String) : CallTree where
  names := tree.names ++ callees
  calls := tree.calls ++ callees.mapIdx fun i _ => ⟨source, tree.names.length + i⟩

def ofRecord (record : CallRecord) : CallTree :=
  (root record.name).addCalls 0 record.imports

/-- The tree with the callees of one callee, when its record is known. They hang from the first node
of its name. -/
def addHop (known : String → Option CallRecord) (tree : CallTree) (callee : String) : CallTree :=
  match known callee, tree.names.idxOf? callee with
  | some record, some source => tree.addCalls source record.imports
  | _, _ => tree

/-- The tree of a record together with the callees of every callee whose record is known. -/
def oneHop (known : String → Option CallRecord) (record : CallRecord) : CallTree :=
  record.imports.foldl (addHop known) (ofRecord record)

/-- The tree of a record, with or without the second hop into the other records. -/
def build (hop : Bool) (records : List CallRecord) (record : CallRecord) : CallTree :=
  if hop then oneHop (CallRecord.named? records) record else ofRecord record

def callsFrom (tree : CallTree) (source : Nat) : List Call :=
  tree.calls.filter fun call => call.source == source

def orderedCalls (tree : CallTree) : List Call :=
  (List.range tree.names.length).flatMap tree.callsFrom

end CallTree
end FlowCorpus.Graph
