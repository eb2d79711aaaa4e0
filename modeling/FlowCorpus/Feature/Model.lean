import FlowCorpus.Feature.Count
import FlowCorpus.Feature.Instructions
import FlowCorpus.Feature.Tensor

/-!
# Features from models

A model maps the expression of one instruction to a vector, or a normalized line to a list of
tokens. The features of a block are the mean of the vectors of its instructions.
-/

set_option autoImplicit false

namespace FlowCorpus.Feature

open FlowCorpus.Json FlowCorpus.Number FlowCorpus.Program

/-- A model that maps an expression to a vector, given as a value. Its extents are those of the
features of a block without expressions. -/
structure Embedder where
  extents : Value
  embed : String → Except Fault Value

structure Encoder where
  encode : String → List Int

namespace Embedder

def lengths : Embedder where
  extents := .int 2
  embed s := .ok (.arr [.int s.length, .int (s.toList.filter fun c => c == ',').length])

/-- The vectors of a table; an expression that is not in it is a missing key. -/
def ofTable (extents table : Value) : Embedder where
  extents := extents
  embed s :=
    match table with
    | .obj fields =>
      match Fields.get? fields s with
      | some value => .ok value
      | none => .error (.missingKey s)
    | _ => .error .wrongType

end Embedder

def Encoder.leadingChars : Encoder where
  encode s := (s.toList.take 3).map fun c => (c.toNat : Int)

/-- The expressions of a block that a model sees: those of valid instructions, unless empty. -/
def modelTexts (b : Block) : List String :=
  b.validInstructions.filterMap fun i => givenText i.esil

/-- The mean of vectors, given as values; that of none is zeros. -/
def meanVector (extents : Value) : List Value → Except Fault Tensor
  | [] => do Tensor.zeros (← Tensor.extentsOf extents)
  | rows => do (← Tensor.ofValue (.arr rows)).mean

/-- The features of a block, which are a list: a single number is refused. -/
def embedBlock (model : Embedder) (b : Block) : Except Fault Tensor := do
  let pooled ← meanVector model.extents (← (modelTexts b).mapM model.embed)
  if pooled.extents.isEmpty then throw .wrongType
  return pooled

def encodeBlock (model : Encoder) (maskRegisters : Bool) (b : Block) :
    Except Fault (List (List Binary64)) := do
  let lines ← blockLines (.ok .esil) maskRegisters b
  return lines.map fun line => (model.encode line).map Binary64.ofInt

end FlowCorpus.Feature
