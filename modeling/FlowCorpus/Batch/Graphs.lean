import FlowCorpus.Batch.ForkJoin
import FlowCorpus.Batch.Isolation
import FlowCorpus.Batch.Naming
import FlowCorpus.Batch.Records
import FlowCorpus.Exchange.Attributed

/-!
# Graph files

One file with an attributed control-flow graph for every function. A function whose file is there
is skipped, as is one that has no graph or no edges; a fault fails the function or, when it is no
fault of a function, its whole input file.
-/

set_option autoImplicit false

namespace FlowCorpus.Batch

open FlowCorpus.Assembly FlowCorpus.Exchange FlowCorpus.Feature FlowCorpus.Graph
open FlowCorpus.Program FlowCorpus.Storage

/-- How graphs are made. An architecture that is given counts in place of the detected one. -/
structure GraphOptions where
  directory : Path
  features : FeatureOptions
  minBlocks : Int := 5
  labels : NodeLabel := .index
  architecture : Option Architecture := none

def writeGraph (graph : Attributed) (path : Path) : Job Unit :=
  Job.writeBelow path graph.toJson.render

def writeFlow (options : GraphOptions) (architecture : Option Architecture) (output : Path)
    (f : Function) (flow : Flow) : Job Outcome := do
  let scheme := options.features.scheme
  match ← Job.ofTraced (nodeFeatures architecture options.features f flow) with
  | none => do
    Job.report (.functionExcluded f.name)
    return .skipped
  | some features =>
    match ← Job.ofTraced (Attributed.ofFeatures flow features scheme options.labels) with
    | none => return .skipped
    | some graph => do
      writeGraph graph output
      Job.report (.graphWritten f.name graph.nodeCount output.text)
      return .processed

def generateGraph (options : GraphOptions) (architecture : Option Architecture) (stem : String)
    (f : Function) : Job Outcome := do
  let output := graphPath options.directory stem options.features.scheme f.name
  if ← Job.ask fun tree => tree.isFile output then
    Job.report (.functionAlreadyProcessed f.name output.text)
    return .skipped
  else
    match ← Job.ofTraced (Flow.buildReporting f options.minBlocks) with
    | none => return .skipped
    | some flow =>
      if flow.edges.isEmpty then
        Job.report (.noEdges f.name)
        return .skipped
      else writeFlow options architecture output f flow

/-- Makes and writes the graph of a function; a fault of the function is its failure. -/
def attemptGraph (options : GraphOptions) (architecture : Option Architecture) (input : Path)
    (f : Function) : Job Outcome := do
  match ← Job.attempt (generateGraph options architecture (inputStem input) f) with
  | .ok outcome => return outcome
  | .error fault =>
    if fault.isFunctionFailure then do
      Job.report (.functionFailed input.text f.name)
      return .failed
    else throw fault

def chooseArchitecture (options : GraphOptions) (loaded : FunctionFile) :
    Job (Option Architecture) := do
  match options.architecture, loaded.architecture with
  | some a, _ => return some a
  | none, some a => return some a
  | none, none => do
    if options.features.scheme.isCounting then
      Job.report (.architectureUndetected loaded.path.text)
    return none

def graphsOf (options : GraphOptions) (loaded : FunctionFile) : Job Report := do
  let architecture ← chooseArchitecture options loaded
  if architecture.isNone && options.features.scheme.isCounting then
    return { failed := loaded.malformed + loaded.functions.length }
  else
    let outcomes ← loaded.functions.mapM (attemptGraph options architecture loaded.path)
    let report := Report.merge { failed := loaded.malformed } (Report.ofOutcomes outcomes)
    Job.report
      (.fileProcessed loaded.path.text report.processed report.skipped report.failed)
    return report

def graphsOfFile (options : GraphOptions) (input : Path) : Job Report :=
  isolated input do
    match ← loadFunctions input with
    | none => return { failed := 1 }
    | some loaded => graphsOf options loaded

def graphsOfFiles (options : GraphOptions) (workers : Int) (inputs : List Path) : Job Report := do
  return Report.sum (← forkJoin workers (graphsOfFile options) inputs)

end FlowCorpus.Batch
