import FlowCorpus.Assembly.Esil
import FlowCorpus.Feature.Scheme
import FlowCorpus.Graph.Walk

/-!
# Instruction text

The normalized instructions of a block, of a function in the order of its blocks, and along
depth-first walks through its control-flow graph.
-/

set_option autoImplicit false

namespace FlowCorpus.Feature

open FlowCorpus.Assembly FlowCorpus.Graph FlowCorpus.Program FlowCorpus.Text

/-- A text of at least two characters. -/
def longText (text : Option String) : Option String :=
  text.filter fun s => 1 < s.length

/-- The line of an instruction in a textual scheme; none for a text of fewer than two
characters. -/
def instructionLine (scheme : Scheme) (maskRegisters : Bool) (i : Instruction) :
    Except Fault (Option String) :=
  match scheme with
  | .esil => .ok ((longText i.esil).map fun s => normalizeEsil s i.kind maskRegisters)
  | .disasm => .ok ((longText i.disasm).map fun s => normalizeDisassembly s maskRegisters)
  | scheme => .error (.notInstructionText scheme.name)

def blockLines (scheme : NamedScheme) (maskRegisters : Bool) (b : Block) :
    Except Fault (List String) := do
  let scheme ← scheme
  let lines ← b.instructions.mapM (instructionLine scheme maskRegisters)
  return lines.filterMap id

/-- A line with a space in place of every comma. -/
def spaceCommas (line : String) : String :=
  String.ofList (join [' '] (split ',' line.toList))

def blocksLines (scheme : NamedScheme) (maskRegisters : Bool) (blocks : List Block) :
    Except Fault (List String) := do
  let lines ← blocks.mapM (blockLines scheme maskRegisters)
  return lines.flatten

/-- All lines of a function that are not empty as one text, spaces between them and in place of
their commas; none for a function that is skipped. -/
def functionText (scheme : NamedScheme) (minBlocks : Int) (maskRegisters : Bool) (f : Function) :
    Except Fault (Option String) :=
  if Flow.isBuildable f minBlocks then do
    let lines ← blocksLines scheme maskRegisters f.blocks
    return some (" ".intercalate ((lines.filter fun line => !line.isEmpty).map spaceCommas))
  else return none

def disassemblyLines (maskRegisters : Bool) (blocks : List Block) : List String :=
  blocks.flatMap fun b =>
    b.instructions.filterMap fun i => i.disasm.map fun s => normalizeDisassembly s maskRegisters

/-- The instructions of a function one by one; none for a function of too few blocks. Outside the
scheme for expressions every disassembly counts, however short. -/
def functionLines (scheme : NamedScheme) (minBlocks : Int) (maskRegisters : Bool) (f : Function) :
    Except Fault (Option (List String)) := do
  let scheme ← scheme
  if (f.blocks.length : Int) < minBlocks then return none
  else if scheme = .esil then return some (← blocksLines (.ok scheme) maskRegisters f.blocks)
  else return some (disassemblyLines maskRegisters f.blocks)

def walkLength : Int := 10

def pairSeparator : String := "      "

def pairsOf (lines : List String) : List String :=
  List.zipWith (fun a b => a ++ pairSeparator ++ b) lines (lines.drop 1)

/-- The blocks at the nodes of a walk; a node at which no block starts has none. -/
def walkBlocks (f : Function) (flow : Flow) (length : Int) (start : Nat) : List Block :=
  (flow.walk length start).filterMap fun (node : Nat) =>
    (flow.index.addressOf? (node : Int)).bind f.blockAt?

def walkLines (scheme : NamedScheme) (maskRegisters pairs : Bool) (f : Function) (flow : Flow)
    (length : Int) (start : Nat) : Except Fault (List String) := do
  let lines ← blocksLines scheme maskRegisters (walkBlocks f flow length start)
  return if pairs then pairsOf lines else lines

/-- The lines along a walk from every node. A function needs more than the least number of
blocks. -/
def randomWalks (scheme : NamedScheme) (minBlocks : Int) (maskRegisters pairs : Bool)
    (length : Int) (f : Function) : Traced (Option (List (List String))) := do
  if (f.blocks.length : Int) ≤ minBlocks then return none
  else
    match ← Flow.buildReporting f minBlocks with
    | none => return none
    | some flow =>
      let walks ← Traced.ofExcept
        ((List.range flow.nodeCount).mapM (walkLines scheme maskRegisters pairs f flow length))
      return some walks

end FlowCorpus.Feature
