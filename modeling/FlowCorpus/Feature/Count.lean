import FlowCorpus.Assembly.Opcode
import FlowCorpus.Feature.Scheme
import FlowCorpus.Journal
import FlowCorpus.Number.Binary64
import FlowCorpus.Program.Function
import FlowCorpus.Text.Split

/-!
# Counting features

The counts of a block are the sums of a row of ones and zeros for every valid instruction. The
Gemini scheme adds the number of ways out of the block, which no instruction shows.
-/

set_option autoImplicit false

namespace FlowCorpus.Feature

open FlowCorpus.Assembly FlowCorpus.Number FlowCorpus.Program FlowCorpus.Text

/-- One if so, zero if not. -/
def one (b : Bool) : Nat :=
  if b then 1 else 0

def addRows (a b : List Nat) : List Nat :=
  List.zipWith (· + ·) a b

def sumRows (width : Nat) (rows : List (List Nat)) : List Nat :=
  rows.foldl addRows (List.replicate width 0)

def oneHot (width field : Nat) : List Nat :=
  (List.range width).map fun i => one (i == field)

def mentions (i : Instruction) (word : String) : Bool :=
  contains word.toList ((i.disasm.getD "").toList)

/-- The ways out of a block: a fall-through, a jump, and every case of a switch. Zero counts as no
target, and equal targets are not merged. -/
def offspring (b : Block) : Nat :=
  one (b.fail != noAddress && b.fail != 0) + one (b.jump != noAddress && b.jump != 0) +
    b.switchCases.length

/-- The row of an instruction in the DiscovRE scheme: call, else transfer, else arithmetic; any
instruction; a numeric constant; a string constant. -/
def discovreRow (a : Architecture) (i : Instruction) : List Nat :=
  let isCall := a.has .call i.mnemonic
  let isTransfer := a.has .transfer i.mnemonic
  let isArithmetic := a.has .arithmetic i.mnemonic
  [one isCall, one (!isCall && isTransfer), one (!isCall && !isTransfer && isArithmetic), 1,
    one (mentions i ", 0x"), one (mentions i " str.")]

def dgisClass (a : Architecture) (i : Instruction) : Nat :=
  let is (group : OpcodeGroup) := a.has group i.mnemonic
  if is .stack then 0
  else if is .arithmetic then 1
  else if is .logic then 2
  else if is .compare then 3
  else if is .call && mentions i "imp" then 4
  else if is .unconditional then 5
  else if is .conditional then 6
  else 7

def dgisRow (a : Architecture) (i : Instruction) : List Nat :=
  oneHot 8 (dgisClass a i)

def tiknibRow (a : Architecture) (i : Instruction) : List Nat :=
  let is (group : OpcodeGroup) := a.has group i.mnemonic
  [one (is .arithmetic || is .shift), one (is .compare || is .floatCompare),
    one (is .controlTransfer), one (is .controlTransfer || is .conditionalTransfer),
    one (is .transfer || is .floatTransfer),
    one (is .floatTransfer || is .floatCompare || is .floatArithmetic), 1]

def discovreCounts (a : Architecture) (b : Block) : List Nat :=
  sumRows 6 (b.validInstructions.map (discovreRow a))

def geminiCounts (a : Architecture) (b : Block) : List Nat :=
  discovreCounts a b ++ [offspring b]

def dgisCounts (a : Architecture) (b : Block) : List Nat :=
  sumRows 8 (b.validInstructions.map (dgisRow a))

def tiknibCounts (a : Architecture) (b : Block) : List Nat :=
  sumRows 7 (b.validInstructions.map (tiknibRow a))

def counts? (scheme : Scheme) (a : Architecture) (b : Block) : Option (List Nat) :=
  match scheme with
  | .gemini => some (geminiCounts a b)
  | .discovre => some (discovreCounts a b)
  | .dgis => some (dgisCounts a b)
  | .tiknib => some (tiknibCounts a b)
  | _ => none

structure Vector where
  scheme : Scheme
  values : List Binary64
deriving DecidableEq, Repr

namespace Vector

def isEmpty (v : Vector) : Bool :=
  v.values.isEmpty

def named (v : Vector) : Except Fault (List (String × Binary64)) :=
  match v.scheme.fields? with
  | some names => .ok (names.zip v.values)
  | none => .error (.noNamedFields v.scheme.name)

end Vector

/-- The vector of a block in a counting scheme. A scheme without counts gives an empty vector,
which is reported. -/
def vectorOf (scheme : Scheme) (a : Architecture) (b : Block) : Traced Vector :=
  match counts? scheme a b with
  | some counts => return ⟨scheme, counts.map Binary64.ofNat⟩
  | none => do
    Traced.report (.emptyFeatureVector scheme.name b.offset)
    return ⟨scheme, []⟩

/-- The vector of a block for a scheme and an architecture given by name. -/
def extract (scheme : NamedScheme) (architecture : Except Fault Architecture) (b : Block) :
    Traced Vector := do
  let scheme ← Traced.ofExcept scheme
  let architecture ← Traced.ofExcept architecture
  vectorOf scheme architecture b

end FlowCorpus.Feature
