import FlowCorpus.Assembly.Opcode
import FlowCorpus.Program.Address
import FlowCorpus.Text.Blank

/-!
# Functions

A function as disassembly reports it: basic blocks of instructions, with the addresses at which
control goes on.
-/

set_option autoImplicit false

namespace FlowCorpus.Program

open FlowCorpus.Assembly FlowCorpus.Text

/-- One instruction. The texts are absent when the record does not give them. -/
structure Instruction where
  offset : Int
  kind : String
  size : Int := 0
  disasm : Option String := none
  esil : Option String := none
  opcode : Option String := none
  bytes : Option String := none
deriving DecidableEq, Repr

/-- A text that is there and not empty. -/
def givenText (text : Option String) : Option String :=
  text.filter fun s => !s.isEmpty

namespace Instruction

/-- Marked as invalid, so that no feature counts it. -/
def isInvalid (i : Instruction) : Bool :=
  i.kind == "invalid"

def mnemonic (i : Instruction) : String :=
  let text := ((givenText i.opcode).or i.disasm).getD ""
  String.ofList (firstWord text.toList)

end Instruction

/-- One case of a switch. Values can exceed sixty-four bits, so they are kept as text. -/
structure SwitchCase where
  jump : Int
  offset : Int
  value : String
deriving DecidableEq, Repr

structure SwitchTable where
  offset : Int := noAddress
  defval : Int := 0
  minval : Int := 0
  maxval : Int := 0
  cases : List SwitchCase := []
deriving DecidableEq, Repr

/-- A basic block with the addresses control goes to when its last instruction jumps or does
not. -/
structure Block where
  offset : Int
  size : Int := 0
  jump : Int := noAddress
  fail : Int := noAddress
  instructions : List Instruction := []
  switch : Option SwitchTable := none
deriving DecidableEq, Repr

namespace Block

def switchCases (b : Block) : List SwitchCase :=
  match b.switch with
  | some table => table.cases
  | none => []

def endAddress (b : Block) : Int :=
  b.offset + b.size

def validInstructions (b : Block) : List Instruction :=
  b.instructions.filter fun i => !i.isInvalid

end Block

/-- A function. The size is absent when the record does not give it. -/
structure Function where
  name : String
  offset : Int
  size : Option Int := none
  blocks : List Block := []
deriving DecidableEq, Repr

namespace Function

/-- The end of the furthest of some blocks, the given address being the end of the first. -/
def furthestEnd (first : Int) (blocks : List Block) : Int :=
  blocks.foldl (fun furthest b => max furthest b.endAddress) first

/-- The address before which the function ends: from its size or, without one, the end of the
furthest block. -/
def upperBound (f : Function) : Int :=
  match f.size, f.blocks with
  | some size, _ => f.offset + size
  | none, [] => f.offset
  | none, b :: rest => furthestEnd b.endAddress rest

def blockAt? (f : Function) (address : Int) : Option Block :=
  f.blocks.find? fun b => b.offset == address

end Function

def Instruction.callArchitecture? (i : Instruction) : Option Architecture :=
  if i.kind == "call" || i.kind == "rcall" then
    (givenText i.disasm).bind fun text =>
      Architecture.ofCall? (String.ofList (firstWord text.toList))
  else none

def detectArchitecture? (functions : List Function) : Option Architecture :=
  functions.findSome? fun f =>
    f.blocks.findSome? fun b => b.instructions.findSome? Instruction.callArchitecture?

end FlowCorpus.Program
