import FlowCorpus.Json.Parser
import FlowCorpus.Program.Reader
import FlowCorpus.Storage.Workspace

/-!
# Files of records

A file holds one record per line, or one list of records. A record that is not JSON, or not what is
expected, is reported and skipped; the others are read.
-/

set_option autoImplicit false

namespace FlowCorpus.Batch

open FlowCorpus.Json FlowCorpus.Program FlowCorpus.Storage FlowCorpus.Text

variable {α : Type}

def decode (s : String) : Except Fault Value :=
  match Json.parse s with
  | .ok value => .ok value
  | .error .malformed => .error .malformedJson
  | .error (.integerTooLong digits) => .error (.integerTooLong digits)
  | .error (.tooDeep isObject) => .error (.jsonTooDeep isObject)

/-- A file of records that was read: what every record that fits stands for, and the number of the
other ones. -/
structure Loaded (α : Type) where
  parsed : List α := []
  malformed : Nat := 0

namespace Loaded

def add (loaded : Loaded α) (a : α) : Loaded α :=
  { loaded with parsed := loaded.parsed ++ [a] }

/-- One more record that does not. -/
def skip (loaded : Loaded α) : Loaded α :=
  { loaded with malformed := loaded.malformed + 1 }

end Loaded

def loadRecord (path : Path) (parse : Value → Except Fault α) (loaded : Loaded α) (number : Nat)
    (record : Value) : Job (Loaded α) :=
  match parse record with
  | .ok a => return loaded.add a
  | .error fault =>
    if fault.isMalformedRecord then do
      Job.report (.malformedFunction path.text number fault)
      return loaded.skip
    else throw fault

def loadLine (path : Path) (parse : Value → Except Fault α) (loaded : Loaded α) (number : Nat)
    (line : List Char) : Job (Loaded α) :=
  if line.all isBlank then return loaded
  else
    match decode (String.ofList line) with
    | .ok record => loadRecord path parse loaded number record
    | .error .malformedJson => do
      Job.report (.malformedRecord path.text number)
      return loaded.skip
    | .error fault => throw fault

/-- Reads the records of a list, numbered from zero. -/
def loadList (path : Path) (parse : Value → Except Fault α) (s : List Char) :
    Job (Option (Loaded α)) :=
  match decode (String.ofList s) with
  | .ok value =>
    some <$> ((value.elements?.getD []).zipIdx.foldlM
      (fun loaded (record, number) => loadRecord path parse loaded number record) {})
  | .error .malformedJson => do
    Job.report (.fileLoadFailed path.text)
    return none
  | .error fault => throw fault

/-- Reads the records of a text: a list when it begins with a bracket, and lines, numbered from one,
otherwise. -/
def loadText (path : Path) (parse : Value → Except Fault α) (s : List Char) :
    Job (Option (Loaded α)) :=
  let stripped := trimStartOf isBlank s
  if stripped.head? = some '[' then loadList path parse stripped
  else
    some <$> ((lines s).zipIdx 1).foldlM
      (fun loaded (line, number) => loadLine path parse loaded number line) {}

/-- The text of a file; a file that cannot be read is reported. -/
def readReporting (path : Path) : Job (Option String) := do
  match ← Job.attempt (Job.ask fun tree => tree.readText path) with
  | .ok s => return some s
  | .error fault =>
    match fault.kind with
    | .store _ | .decoding => do
      Job.report (.fileLoadFailed path.text)
      return none
    | _ => throw fault

/-- Reads a file of records. There is no result for a file that cannot be read, or that holds a list
that is not JSON. -/
def loadRecords (parse : Value → Except Fault α) (path : Path) : Job (Option (Loaded α)) := do
  match ← readReporting path with
  | none => return none
  | some s => loadText path parse s.toList

structure FunctionFile where
  path : Path
  functions : List Function
  architecture : Option Assembly.Architecture
  malformed : Nat

def loadFunctions (path : Path) : Job (Option FunctionFile) := do
  match ← loadRecords Function.ofJson path with
  | none => return none
  | some loaded =>
    Job.report (.loadedFunctions path.text loaded.parsed.length loaded.malformed)
    return some {
      path
      functions := loaded.parsed
      architecture := detectArchitecture? loaded.parsed
      malformed := loaded.malformed }

def inputSuffixes : List String := [".json", ".jsonl"]

/-- The input files at a path: the file itself, or the files of a directory that have one of the
suffixes, in order. -/
def findInputs (path : Path) (deep : Bool) : Job (List Path) := do
  if ← Job.ask fun tree => tree.isFile path then return [path]
  else
    let files ← Job.ask fun tree => tree.filesBelow path deep
    return files.filter fun file => inputSuffixes.contains file.suffix

end FlowCorpus.Batch
