import FlowCorpus.Batch.Graphs
import FlowCorpus.Exchange.CallTree

/-!
# Call graph files

One file with a call graph for every record of an input file. A record whose file is there is
skipped.
-/

set_option autoImplicit false

namespace FlowCorpus.Batch

open FlowCorpus.Exchange FlowCorpus.Graph FlowCorpus.Program FlowCorpus.Storage

def generateCallGraph (directory : Path) (hop : Bool) (stem : String) (records : List CallRecord)
    (record : CallRecord) : Job Outcome := do
  let output := callGraphPath directory stem record.name hop
  if ← Job.ask fun tree => tree.isFile output then return .skipped
  else do
    writeGraph (Attributed.ofCallTree (CallTree.build hop records record)) output
    return .processed

def callGraphsOfFile (directory : Path) (hop : Bool) (input : Path) : Job Report :=
  isolated input do
    match ← loadRecords CallRecord.ofJson input with
    | none => return { failed := 1 }
    | some loaded => do
      let outcomes ← loaded.parsed.mapM
        (generateCallGraph directory hop (inputStem input) loaded.parsed)
      let report := Report.merge { failed := loaded.malformed } (Report.ofOutcomes outcomes)
      Job.report (.callGraphsWritten input.text report.processed hop)
      return report

end FlowCorpus.Batch
