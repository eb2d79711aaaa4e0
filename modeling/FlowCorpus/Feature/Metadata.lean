import FlowCorpus.Fault
import FlowCorpus.Schema.Field

/-!
# Function metadata

What disassembly says about a function as a whole, and the two subsets of it that serve as
features. A missing count is zero in a subset.
-/

set_option autoImplicit false

namespace FlowCorpus.Feature

open FlowCorpus.Json FlowCorpus.Number FlowCorpus.Schema

structure FunctionInfo where
  name : String
  ninstrs : Int := 0
  edges : Int := 0
  nbbs : Int := 0
  indegree : Option Int := none
  outdegree : Option Int := none
  nlocals : Option Int := none
  nargs : Option Int := none
  signature : String := ""
deriving DecidableEq, Repr

namespace FunctionInfo

/-- The facts from the entries of a record; entries of other names are ignored. -/
def ofEntries (entries : Entries) : Checked FunctionInfo :=
  FunctionInfo.mk <$> required text "name" entries
    <*> defaulted 0 integer "ninstrs" entries
    <*> defaulted 0 integer "edges" entries
    <*> defaulted 0 integer "nbbs" entries
    <*> defaulted none (optional integer) "indegree" entries
    <*> defaulted none (optional integer) "outdegree" entries
    <*> defaulted none (optional integer) "nlocals" entries
    <*> defaulted none (optional integer) "nargs" entries
    <*> defaulted "" text "signature" entries

def ofJson (value : Value) : Except Fault FunctionInfo :=
  match checkEntries "FunctionInfo" ofEntries (Datum.ofJson value) with
  | .valid info => .ok info
  | .invalid issues => .error (.invalidModel issues)

def optionalCount (n : Option Int) : Value :=
  match n with
  | some n => .int n
  | none => .null

def toJson (info : FunctionInfo) : Value :=
  .obj [("name", .str info.name), ("ninstrs", .int info.ninstrs), ("edges", .int info.edges),
    ("nbbs", .int info.nbbs), ("indegree", optionalCount info.indegree),
    ("outdegree", optionalCount info.outdegree), ("nlocals", optionalCount info.nlocals),
    ("nargs", optionalCount info.nargs), ("signature", .str info.signature)]

def commonFields (info : FunctionInfo) : Fields :=
  [("name", .str info.name), ("ninstrs", .int info.ninstrs), ("edges", .int info.edges),
    ("indegree", .int (info.indegree.getD 0)), ("outdegree", .int (info.outdegree.getD 0)),
    ("nlocals", .int (info.nlocals.getD 0)), ("nargs", .int (info.nargs.getD 0))]

/-- The mean number of instructions in a block; zero without blocks. -/
def meanInstructions (info : FunctionInfo) : Except Fault Binary64 :=
  if info.nbbs = 0 then .ok (Binary64.ofNat 0)
  else
    match Binary64.ofIntRatio info.ninstrs info.nbbs with
    | .infinite _ => .error .quotientTooLarge
    | x => .ok x

def subset (info : FunctionInfo) : Value :=
  .obj (info.commonFields ++ ([("signature", .str info.signature)] : Fields))

/-- The subset with the number of blocks and the mean number of instructions in a block in place of
the signature. -/
def extendedSubset (info : FunctionInfo) : Except Fault Value := do
  let mean ← info.meanInstructions
  return .obj (info.commonFields ++
    ([("nbbs", .int info.nbbs), ("avg_ins_bb", .float mean)] : Fields))

def subsetOf (extended : Bool) (info : FunctionInfo) : Except Fault Value :=
  if extended then info.extendedSubset else .ok info.subset

end FunctionInfo
end FlowCorpus.Feature
