import FlowCorpus.Batch.ForkJoin
import FlowCorpus.Batch.Records
import FlowCorpus.Dedup.Record
import FlowCorpus.Json.Printer

/-!
# Record corpora

Files of records in groups by binary. Every group is deduplicated for itself; a file that holds no
object of texts is reported and left out.
-/

set_option autoImplicit false

namespace FlowCorpus.Dedup

open FlowCorpus.Batch FlowCorpus.Json FlowCorpus.Storage FlowCorpus.Text

structure RecordGroup where
  binary : String
  kept : List Kept
  statistics : Statistics
  failed : List Path
  output : Option Path

abbrev Texts := List (LooseText × LooseText)

def textsOf? : Value → Option Texts
  | .obj fields => fields.mapM fun (name, value) => value.text?.map fun s => (name, s)
  | _ => none

/-- The texts by name in a file, and the text as an object; a file that has none is reported. -/
def loadTexts (path : Path) : Job (Option Texts) := do
  match ← readReporting path with
  | none => return none
  | some s =>
    match decode s with
    | .ok value =>
      match textsOf? value with
      | some texts => return some texts
      | none => do
        Job.report (.fileLoadFailed path.text)
        return none
    | .error .malformedJson => do
      Job.report (.fileLoadFailed path.text)
      return none
    | .error fault => throw fault

structure Gathered where
  records : List Kept := []
  failed : List Path := []

def RecordFile.recordsOf (file : RecordFile) (texts : Texts) : List Record :=
  texts.map fun (name, data) => ⟨name, data, file.triple⟩

/-- Adds the records of a file. Their digests are made before the next file is looked at. -/
def gather (justValue : Bool) (gathered : Gathered) (file : RecordFile) : Job Gathered := do
  match ← loadTexts file.path with
  | none => return { gathered with failed := gathered.failed ++ [file.path] }
  | some texts =>
    let records ← Job.ofExcept ((file.recordsOf texts).mapM (Record.kept justValue))
    return { gathered with records := gathered.records ++ records }

def groupPath (directory : Path) (binary : String) : Path :=
  directory.below (binary ++ "-dedup.json")

/-- Deduplicates a group, and writes what is kept when there is a directory for it. -/
def dedupRecords (justValue : Bool) (directory : Option Path) (binary : String)
    (files : List RecordFile) : Job RecordGroup := do
  let gathered ← files.foldlM (gather justValue) {}
  let (kept, statistics) := firstKept gathered.records
  let output := directory.map fun d => groupPath d binary
  output.forM fun path => Job.writeBelow path (Value.arr (kept.map Kept.toJson)).render
  Job.report (.groupDeduplicated binary gathered.records.length kept.length)
  return ⟨binary, kept, statistics, gathered.failed, output⟩

structure RecordCorpus where
  files : List RecordFile

namespace RecordCorpus

def ending : String := ".json"

def ofDirectory (tree : Tree) (directory : Path) : Except Fault RecordCorpus := do
  let files ← tree.filesBelow directory true
  return ⟨(files.filter fun path => path.name.endsWith ending).map RecordFile.ofPath⟩

def binaries (corpus : RecordCorpus) : List String :=
  firsts id (corpus.files.map RecordFile.binary)

def filesOf (corpus : RecordCorpus) (binary : String) : List RecordFile :=
  corpus.files.filter fun file => file.binary == binary

def dedupBinary (corpus : RecordCorpus) (justValue : Bool) (directory : Option Path)
    (binary : String) : Job RecordGroup :=
  dedupRecords justValue directory binary (corpus.filesOf binary)

def dedup (corpus : RecordCorpus) (justValue : Bool) (directory : Option Path) (workers : Int) :
    Job (List RecordGroup) :=
  forkJoin workers (corpus.dedupBinary justValue directory) corpus.binaries

end RecordCorpus
end FlowCorpus.Dedup
