import FlowCorpus.Feature.Scheme
import FlowCorpus.Storage.Path

/-!
# Output names

Where the results for an input file go, by its stem and, where every function has a result of its
own, by the name of the function.
-/

set_option autoImplicit false

namespace FlowCorpus.Batch

open FlowCorpus.Feature FlowCorpus.Storage

/-- The mark at which the name of an input file is cut to its stem. -/
def inputMark : String := ".j"

def inputStem (path : Path) : String :=
  path.stemBefore inputMark

def nameLengthLimit : Nat := 100

def cutNameLength : Nat := 75

def safeName (name : String) : String :=
  if nameLengthLimit < name.length then String.ofList (name.toList.take cutNameLength) else name

def graphPath (directory : Path) (stem : String) (scheme : Scheme) (function : String) : Path :=
  (directory.below (stem ++ "-" ++ scheme.name)).below
    (stem ++ "-" ++ safeName function ++ ".json")

def callGraphPath (directory : Path) (stem function : String) (hop : Bool) : Path :=
  if hop then (directory.below (stem ++ "-1hop")).below (safeName function ++ "-1hopcg.json")
  else (directory.below stem).below (safeName function ++ "-cg.json")

/-- How the instructions of a file are written: one text per function, or one instruction per line,
also along random walks. -/
inductive CorpusFormat where
  | texts
  | singles
  | walks (pairs : Bool)
deriving DecidableEq, Repr

def corpusEnding (format : CorpusFormat) (scheme : Scheme) : String :=
  let expressions := scheme = .esil
  match format with
  | .texts => if expressions then "-efs.json" else "-dfs.json"
  | .singles => if expressions then "-esil-singles.txt" else "-dis-singles.txt"
  | .walks _ => if expressions then "-esil-singles-rwdfs.txt" else "-dis-singles-rwdfs.txt"

def corpusPath (directory : Path) (scheme : Scheme) (format : CorpusFormat) (input : Path) : Path :=
  directory.below (inputStem input ++ corpusEnding format scheme)

def summaryPath (directory input : Path) : Path :=
  directory.below (inputStem input ++ "-tiknib.json")

def metadataPath (directory input : Path) : Path :=
  directory.below (inputStem input ++ "-finfo-subset.json")

end FlowCorpus.Batch
