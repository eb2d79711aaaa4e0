import FlowCorpus.Batch.ForkJoin
import FlowCorpus.Dedup.Graph

/-!
# Graph corpora

Graph files in groups by binary. Every group is deduplicated for itself; what is kept is written
below an output directory under the name of its own directory.
-/

set_option autoImplicit false

namespace FlowCorpus.Dedup

open FlowCorpus.Batch FlowCorpus.Json FlowCorpus.Storage

structure GraphGroup where
  binary : String
  kept : List Path
  statistics : Statistics
  failed : List Path := []
  written : List Path := []

/-- The graphs that were loaded with their files, and the files that could not be. -/
structure LoadedGraphs where
  graphs : List Value := []
  paths : List Path := []
  failed : List Path := []

/-- Loads one more graph; a file without a graph is reported. -/
def loadNext (loaded : LoadedGraphs) (path : Path) : Job LoadedGraphs := do
  match ← Job.attempt (Job.ask fun tree => loadGraph tree path) with
  | .ok fields =>
    return { loaded with graphs := loaded.graphs ++ [.obj fields], paths := loaded.paths ++ [path] }
  | .error fault =>
    if fault.kind = .load then do
      Job.report (.fileLoadFailed path.text)
      return { loaded with failed := loaded.failed ++ [path] }
    else throw fault

def LoadedGraphs.dedup (loaded : LoadedGraphs) : LoadedGraphs :=
  let places := repeats (loaded.graphs.map graphDigest)
  { loaded with
    graphs := withoutPlaces places loaded.graphs
    paths := withoutPlaces places loaded.paths }

def keptPath (directory path : Path) : Path :=
  (directory.below path.parent.name).below path.name

def writeKept (directory : Path) (graph : Value) (path : Path) : Job Path := do
  let target := keptPath directory path
  Job.writeBelow target graph.render
  return target

/-- Deduplicates a group, and writes what is kept when there is a directory for it. -/
def dedupGraphs (directory : Option Path) (binary : String) (paths : List Path) :
    Job GraphGroup := do
  let loaded ← paths.foldlM loadNext {}
  let kept := loaded.dedup
  let written ←
    match directory with
    | none => pure []
    | some d => (kept.graphs.zip kept.paths).mapM fun (graph, path) => writeKept d graph path
  Job.report (.groupDeduplicated binary loaded.graphs.length kept.graphs.length)
  return {
    binary
    kept := kept.paths
    statistics := ⟨loaded.graphs.length, kept.graphs.length⟩
    failed := loaded.failed
    written }

/-- The graph files below a directory: groups by binary, in the order of their first files, and the
files whose directory names no binary. -/
structure GraphCorpus where
  groups : List (String × List Path) := []
  unparsed : List Path := []

namespace GraphCorpus

def addTo (binary : String) (path : Path) : List (String × List Path) → List (String × List Path)
  | [] => [(binary, [path])]
  | (b, paths) :: rest =>
    if b = binary then (b, paths ++ [path]) :: rest else (b, paths) :: addTo binary path rest

/-- The corpus with one more file; one whose directory names no binary is reported. -/
def add (format : Except Fault PathFormat) (corpus : GraphCorpus) (path : Path) :
    Job GraphCorpus :=
  match binaryName format path with
  | .ok binary => return { corpus with groups := addTo binary path corpus.groups }
  | .error fault => do
    Job.report (.unparsablePath path.text fault.logText)
    return { corpus with unparsed := corpus.unparsed ++ [path] }

def ending : String := ".json"

def ofDirectory (format : Except Fault PathFormat) (directory : Path) : Job GraphCorpus := do
  let files ← Job.ask fun tree => tree.filesBelow directory true
  (files.filter fun path => path.name.endsWith ending).foldlM (add format) {}

def dedup (corpus : GraphCorpus) (directory : Option Path) (workers : Int) :
    Job (List GraphGroup) :=
  forkJoin workers (fun (binary, paths) => dedupGraphs directory binary paths) corpus.groups

end GraphCorpus
end FlowCorpus.Dedup
