import FlowCorpus.Cli.Generate
import FlowCorpus.Dedup.GraphCorpus
import FlowCorpus.Dedup.RecordCorpus

/-!
# Deduplicating commands

The commands that deduplicate the records or graphs below a directory.
-/

set_option autoImplicit false

namespace FlowCorpus.Cli

open FlowCorpus.Config FlowCorpus.Dedup FlowCorpus.Json FlowCorpus.Storage FlowCorpus.Text

/-- A directory that has to be there. -/
def requireDirectory (path : Path) : Program Unit := do
  if !(← Program.ofJob (Job.ask fun tree => tree.isDirectory path)) then
    Program.fail ("Not a directory: " ++ path.text)

def statisticsRow (binary : String) (statistics : Statistics) : Except Fault Fields := do
  return ("Binary", .str binary) :: (← statistics.row)

def showStatistics (title : String) (groups : List (String × Statistics)) : Program Unit := do
  let rows ← Program.ofJob
    (Job.ofExcept (groups.mapM fun (binary, statistics) => statisticsRow binary statistics))
  Program.display (.table rows title)

structure RecordsRequest where
  directory : Path
  output : Option Path
  printStatistics : Option Bool
  justStatistics : Bool
  justValue : Option Bool

def recordsOptions : List OptionName :=
  wordOption "output" ["--output", "-o"] ++
    pairOption "print-stats" "--print-stats" "--no-print-stats" ++
    switchOption "just-stats" ["--just-stats"] ++
    pairOption "hash-just-value" "--hash-just-value" "--hash-name-and-value" ++ helpOption

def RecordsRequest.ofArguments (arguments : Arguments) : Except UsageFault RecordsRequest := do
  return {
    directory := ← arguments.singlePath
    output := ← arguments.path? "output"
    printStatistics := arguments.switch? "print-stats"
    justStatistics := arguments.isOn "just-stats"
    justValue := arguments.switch? "hash-just-value" }

def runRecords (context : Context) (request : RecordsRequest) : Program Unit := do
  requireDirectory request.directory
  if request.output.isNone && !request.justStatistics then
    Program.fail "--output is required unless --just-stats is given"
  let settings := context.settings.dedup
  let corpus ← Program.ofJob (Job.ask fun tree => RecordCorpus.ofDirectory tree request.directory)
  if corpus.files.isEmpty then
    Program.fail ("No JSON files found under " ++ request.directory.text)
  let output := if request.justStatistics then none else request.output
  let groups ← Program.ofJob
    (corpus.dedup (request.justValue.getD settings.justValue) output context.workers)
  if request.printStatistics.getD settings.printStatistics || request.justStatistics then
    showStatistics "Record deduplication" (groups.map fun g => (g.binary, g.statistics))
  let failed := (groups.flatMap fun g => g.failed).length
  let processed := (groups.filter fun g => 0 < g.statistics.total).length
  Program.display (.summary "Binaries" processed (groups.length - processed) failed)
  if processed = 0 then throw (.exit 1)
  output.forM fun path =>
    Program.display (.success
      ("Wrote " ++ toString processed ++ " deduplicated corpus file(s) to " ++ path.text))

structure DedupGraphsRequest where
  directory : Path
  output : Path
  pathFormat : Option String
  printStatistics : Option Bool

def dedupGraphsOptions : List OptionName :=
  wordOption "output" ["--output", "-o"] ++ wordOption "format" ["--filepath-format"] ++
    pairOption "print-stats" "--print-stats" "--no-print-stats" ++ helpOption

def DedupGraphsRequest.ofArguments (arguments : Arguments) :
    Except UsageFault DedupGraphsRequest := do
  let output ← arguments.requiredPath "output"
  return {
    directory := ← arguments.singlePath
    output
    pathFormat := arguments.word? "format"
    printStatistics := arguments.switch? "print-stats" }

def formatOrFail (name : String) : Program PathFormat :=
  match PathFormat.parse name with
  | .ok format => return format
  | .error _ =>
    Program.fail ("Unknown filepath format " ++ quoted name ++ " (choose cisco or binkit)")

def runDedupGraphs (context : Context) (request : DedupGraphsRequest) : Program Unit := do
  requireDirectory request.directory
  let settings := context.settings.dedup
  let format ← formatOrFail (request.pathFormat.getD settings.pathFormat)
  let corpus ← Program.ofJob (GraphCorpus.ofDirectory (.ok format) request.directory)
  if !corpus.unparsed.isEmpty then
    Program.display (.warning
      (toString corpus.unparsed.length ++ " file(s) had no parsable binary name"))
  if corpus.groups.isEmpty then
    Program.fail ("No graph files found under " ++ request.directory.text)
  let groups ← Program.ofJob (corpus.dedup (some request.output) context.workers)
  if request.printStatistics.getD settings.printStatistics then
    showStatistics "Graph deduplication" (groups.map fun g => (g.binary, g.statistics))
  let written := (groups.flatMap fun g => g.written).length
  let removed := groups.foldl (fun sum g => sum + g.statistics.removed) 0
  let failed := (groups.flatMap fun g => g.failed).length + corpus.unparsed.length
  Program.display (.summary "Graphs" written removed failed)
  if written = 0 then throw (.exit 1)

end FlowCorpus.Cli
