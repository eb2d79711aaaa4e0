import FlowCorpus.Graph.AddressIndex
import FlowCorpus.Journal
import FlowCorpus.Program.Function

/-!
# Control flow

The control-flow graph of a function: its nodes are addresses, numbered as they are first seen, and
its edges say by which way control goes from a block to an address. Jump and fall-through targets
count only inside the function; the targets of a switch count everywhere.
-/

set_option autoImplicit false

namespace FlowCorpus.Graph

open FlowCorpus.Program

/-- The way by which control leaves a block. -/
inductive EdgeKind where
  | jump
  | fail
  | switch
deriving DecidableEq, Repr

def EdgeKind.weight : EdgeKind → Nat
  | .jump => 1
  | .fail => 2
  | .switch => 3

structure Edge where
  source : Nat
  target : Nat
  kind : EdgeKind
deriving DecidableEq, Repr

structure Flow where
  function : String
  index : AddressIndex
  edges : List Edge

namespace Flow

/-- An address inside the bounds; any other is no address. -/
def bounded (lower upper address : Int) : Int :=
  if lower ≤ address ∧ address < upper then address else noAddress

/-- A target with its kind, unless it is no address. -/
def present (address : Int) (kind : EdgeKind) : List (Int × EdgeKind) :=
  if address = noAddress then [] else [(address, kind)]

/-- The targets of a block that begins inside the bounds, in order: the jump, the fall-through and
the cases of the switch. -/
def targets (b : Block) (lower upper : Int) : List (Int × EdgeKind) :=
  present (bounded lower upper b.jump) .jump ++ present (bounded lower upper b.fail) .fail ++
    b.switchCases.flatMap fun c => present c.jump .switch

/-- The addresses of a block itself that get a number: its start, its jump and its
fall-through. -/
def ownAddresses (b : Block) (lower upper : Int) : List Int :=
  [bounded lower upper b.offset, bounded lower upper b.jump, bounded lower upper b.fail].filter
    (· ≠ noAddress)

def insertAll (index : AddressIndex) (addresses : List Int) : AddressIndex :=
  addresses.foldl AddressIndex.insert index

def link (source : Nat) : AddressIndex → List (Int × EdgeKind) → List Edge × AddressIndex
  | index, [] => ([], index)
  | index, (address, kind) :: rest =>
    let (target, index) := index.add address
    let (edges, index) := link source index rest
    (⟨source, target, kind⟩ :: edges, index)

/-- The edges that leave one block. A block that begins outside the bounds has none, though its
jump and fall-through are numbered. -/
def blockEdges (b : Block) (lower upper : Int) (index : AddressIndex) :
    List Edge × AddressIndex :=
  let start := bounded lower upper b.offset
  let index := insertAll index (ownAddresses b lower upper)
  if start = noAddress then ([], index)
  else
    match index.get? start with
    | some source => link source index (targets b lower upper)
    | none => ([], index)

def blocksEdges (lower upper : Int) : List Block → AddressIndex → List Edge × AddressIndex
  | [], index => ([], index)
  | b :: rest, index =>
    let (edges, index) := blockEdges b lower upper index
    let (more, index) := blocksEdges lower upper rest index
    (edges ++ more, index)

def unanalysedOffset : Int := 1

def isBuildable (f : Function) (minBlocks : Int) : Bool :=
  match f.blocks with
  | [] => false
  | b :: _ => minBlocks ≤ f.blocks.length && b.offset != unanalysedOffset

/-- The control-flow graph of a function, unless it is skipped. -/
def build (f : Function) (minBlocks : Int) : Option Flow :=
  if isBuildable f minBlocks then
    let (edges, index) := blocksEdges f.offset f.upperBound f.blocks .empty
    some ⟨f.name, index, edges⟩
  else none

/-- The control-flow graph of a function; a function that is skipped is reported. -/
def buildReporting (f : Function) (minBlocks : Int) : Traced (Option Flow) :=
  match build f minBlocks with
  | some flow => return some flow
  | none => do
    Traced.report (.cfgSkipped f.name f.blocks.length)
    return none

def nodeCount (flow : Flow) : Nat :=
  flow.index.size

/-- The nodes that edges lead to from a node, each once, in the order of the first edge. -/
def successors (flow : Flow) (node : Nat) : List Nat :=
  ((flow.edges.filter fun e => e.source == node).map Edge.target).foldl
    (fun seen target => if seen.contains target then seen else seen ++ [target]) []

end Flow
end FlowCorpus.Graph
