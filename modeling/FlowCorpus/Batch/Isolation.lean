import FlowCorpus.Batch.Report
import FlowCorpus.Storage.Workspace

/-!
# Isolation of files

A fault while one file is processed fails that file and no other one.
-/

set_option autoImplicit false

namespace FlowCorpus.Batch

open FlowCorpus.Storage

/-- Runs the task of one file; a fault is reported and counts as one failure. -/
def isolated (path : Path) (job : Job Report) : Job Report := do
  match ← Job.attempt job with
  | .ok report => return report
  | .error fault => do
    Job.report (.fileFailed path.text fault)
    return { failed := 1 }

/-- Runs the task of an output file, unless there is something at its path already. -/
def unlessPresent (output : Path) (job : Job Report) : Job Report := do
  if ← Job.ask fun tree => tree.isPresent output then
    Job.report (.fileAlreadyProcessed output.text)
    return { skipped := 1 }
  else job

end FlowCorpus.Batch
