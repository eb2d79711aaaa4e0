import FlowCorpus.Graph.Flow

/-!
# Operations on an address index

What is asked of an index, one operation after the other: to number an address, to look a number or
an address up, and to number the addresses of a block and link them.
-/

set_option autoImplicit false

namespace FlowCorpus.Graph

open FlowCorpus.Program

/-- One operation on an index. -/
inductive Operation where
  | add (address : Int)
  | get (address : Int)
  | contains (address : Int)
  | addressOf (id : Int)
  | blockEdges (b : Block) (lower upper : Int)
deriving DecidableEq, Repr

namespace Operation

/-- What an operation answers. Only a number at which there is no address is a fault. -/
abbrev Answer : Operation → Type
  | .add _ => Nat
  | .get _ => Option Nat
  | .contains _ => Bool
  | .addressOf _ => Except Fault Int
  | .blockEdges _ _ _ => List Edge

def run : (operation : Operation) → AddressIndex → operation.Answer × AddressIndex
  | .add address, index => index.add address
  | .get address, index => (index.get? address, index)
  | .contains address, index => (index.contains address, index)
  | .addressOf id, index => (index.addressOf id, index)
  | .blockEdges b lower upper, index => Flow.blockEdges b lower upper index

def runAll (index : AddressIndex) (operations : List Operation) : AddressIndex :=
  operations.foldl (fun index operation => (operation.run index).2) index

end Operation
end FlowCorpus.Graph
