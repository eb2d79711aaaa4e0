import FlowCorpus.Batch.Isolation
import FlowCorpus.Batch.Naming
import FlowCorpus.Batch.Records
import FlowCorpus.Feature.Summary

/-!
# Summary files

One file with the summaries of all functions of an input file. A file that is there is left alone.
-/

set_option autoImplicit false

namespace FlowCorpus.Batch

open FlowCorpus.Assembly FlowCorpus.Feature FlowCorpus.Json FlowCorpus.Storage

/-- Writes the summaries of an input file, for the architecture that is given or detected. -/
def writeSummaries (architecture : Option Architecture) (input output : Path) : Job Report := do
  match ← loadFunctions input with
  | none => return { failed := 1 }
  | some loaded =>
    match architecture.or loaded.architecture with
    | none => do
      Job.report (.architectureUndetected input.text)
      return { failed := 1 }
    | some a => do
      Job.writeBelow output (Value.arr (loaded.functions.map (summary a))).render
      return { processed := 1 }

def summariesOfFile (directory : Path) (architecture : Option Architecture) (input : Path) :
    Job Report :=
  let output := summaryPath directory input
  isolated input (unlessPresent output (writeSummaries architecture input output))

end FlowCorpus.Batch
