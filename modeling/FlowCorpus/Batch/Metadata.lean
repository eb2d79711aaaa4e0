import FlowCorpus.Batch.Isolation
import FlowCorpus.Batch.Naming
import FlowCorpus.Batch.Records
import FlowCorpus.Feature.Metadata

/-!
# Metadata files

One file with a subset of the metadata of all functions of an input file. A file that is there is
left alone, and a file without any function that fits fails.
-/

set_option autoImplicit false

namespace FlowCorpus.Batch

open FlowCorpus.Feature FlowCorpus.Json FlowCorpus.Storage

def writeMetadata (extended : Bool) (input output : Path) : Job Report := do
  match ← loadRecords FunctionInfo.ofJson input with
  | none => return { failed := 1 }
  | some loaded =>
    if loaded.parsed.isEmpty then return { failed := 1 }
    else do
      Job.ensureDirectories output.parent
      let subsets ← Job.ofExcept (loaded.parsed.mapM (FunctionInfo.subsetOf extended))
      Job.writeText output (Value.arr subsets).render
      Job.report (.metadataWritten output.text loaded.parsed.length loaded.malformed)
      return { processed := 1 }

def metadataOfFile (directory : Path) (extended : Bool) (input : Path) : Job Report :=
  let output := metadataPath directory input
  isolated input (unlessPresent output (writeMetadata extended input output))

end FlowCorpus.Batch
