import FlowCorpus.Batch.ForkJoin
import FlowCorpus.Batch.Isolation
import FlowCorpus.Batch.Naming
import FlowCorpus.Batch.Records
import FlowCorpus.Feature.Instructions

/-!
# Instruction corpora

One file with the instruction text of the functions of an input file: a text for every function, or
an instruction on every line. A file that is there is left alone.
-/

set_option autoImplicit false

namespace FlowCorpus.Batch

open FlowCorpus.Feature FlowCorpus.Json FlowCorpus.Program FlowCorpus.Storage

/-- How a corpus is asked for. Random walks go with single instructions only. -/
structure CorpusOptions where
  directory : Path
  scheme : Scheme := .esil
  minBlocks : Int := 5
  maskRegisters : Bool := false
  single : Bool := false
  randomWalk : Bool := false
  pairs : Bool := false

namespace CorpusOptions

def format (options : CorpusOptions) : CorpusFormat :=
  if options.single then
    if options.randomWalk then .walks options.pairs else .singles
  else .texts

def fault? (options : CorpusOptions) : Option Fault :=
  if !options.scheme.isTextual then some (.notACorpusScheme options.scheme.name)
  else if options.randomWalk && !options.single then some .walksNeedSingles
  else none

end CorpusOptions

def singleLines (options : CorpusOptions) (f : Function) : Job (Option (List String)) :=
  if options.randomWalk then do
    let walks ← Job.ofTraced (randomWalks (.ok options.scheme) options.minBlocks
      options.maskRegisters options.pairs walkLength f)
    return walks.map List.flatten
  else
    Job.ofExcept (functionLines (.ok options.scheme) options.minBlocks options.maskRegisters f)

def singlesText (options : CorpusOptions) (functions : List Function) : Job String := do
  let lines ← functions.mapM (singleLines options)
  return String.join (((lines.filterMap id).flatten).map fun line => line ++ "\n")

/-- The texts of functions by name; of functions with one name the last one counts. -/
def textFields (options : CorpusOptions) (functions : List Function) : Except Fault Fields :=
  functions.foldlM
    (fun (fields : Fields) f => do
      match ← functionText (.ok options.scheme) options.minBlocks options.maskRegisters f with
      | some s => return fields.set f.name (.str s)
      | none => return fields)
    []

def corpusText (options : CorpusOptions) (functions : List Function) : Job String :=
  if options.single then singlesText options functions
  else do
    let fields ← Job.ofExcept (textFields options functions)
    return (Value.obj fields).render

def writeCorpus (options : CorpusOptions) (input output : Path) : Job Report := do
  match ← loadFunctions input with
  | none => return { failed := 1 }
  | some loaded => do
    Job.ensureDirectories output.parent
    Job.writeText output (← corpusText options loaded.functions)
    Job.report (.corpusWritten output.text loaded.functions.length)
    return { processed := 1 }

def corpusOfFile (options : CorpusOptions) (input : Path) : Job Report :=
  match options.fault? with
  | some fault => throw fault
  | none =>
    let output := corpusPath options.directory options.scheme options.format input
    isolated input (unlessPresent output (writeCorpus options input output))

def corporaOfFiles (options : CorpusOptions) (workers : Int) (inputs : List Path) :
    Job Report := do
  return Report.sum (← forkJoin workers (corpusOfFile options) inputs)

end FlowCorpus.Batch
