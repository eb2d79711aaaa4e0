import FlowCorpus.Assembly.Alias
import FlowCorpus.Batch.CallGraphs
import FlowCorpus.Batch.Corpora
import FlowCorpus.Batch.Metadata
import FlowCorpus.Batch.Summaries
import FlowCorpus.Cli.Console
import FlowCorpus.Cli.Usage

/-!
# Generating commands

The commands that make graphs, instruction corpora, summaries, call graphs and metadata of the
input files at a path.
-/

set_option autoImplicit false

namespace FlowCorpus.Cli

open FlowCorpus.Assembly FlowCorpus.Batch FlowCorpus.Config FlowCorpus.Exchange
open FlowCorpus.Feature FlowCorpus.Storage FlowCorpus.Text

structure Context where
  settings : Settings
  workers : Int

structure Places where
  input : Path
  output : Path
  deep : Bool

def placeOptions : List OptionName :=
  wordOption "output" ["--output", "-o"] ++ switchOption "recursive" ["--recursive", "-r"] ++
    helpOption

def Places.ofArguments (arguments : Arguments) : Except UsageFault Places := do
  let output ← arguments.requiredPath "output"
  let input ← arguments.singlePath
  return ⟨input, output, arguments.isOn "recursive"⟩

/-- The input files, of which there has to be one. -/
def inputFiles (places : Places) : Program (List Path) := do
  if !(← Program.ofJob (Job.ask fun tree => tree.isPresent places.input)) then
    Program.fail ("Input path does not exist: " ++ places.input.text)
  else
    let files ← Program.ofJob (findInputs places.input places.deep)
    if files.isEmpty then
      Program.fail ("No .json/.jsonl files found under " ++ places.input.text)
    else return files

/-- Shows a report. A batch that only failed is a failure. -/
def finish (title : String) (report : Report) : Program Unit := do
  Program.display (.summary title report.processed report.skipped report.failed)
  if report.processed = 0 && 0 < report.failed then throw (.exit 1)

/-- The architecture of a name; an empty name is none. -/
def architectureOf (name : Option String) : Except Fault (Option Architecture) :=
  match givenName name with
  | some name => some <$> Architecture.parse name
  | none => .ok none
where
  /-- A name that is not empty. -/
  givenName (name : Option String) : Option String :=
    name.filter fun s => !s.isEmpty

def inTurn (job : Path → Job Report) (files : List Path) : Program Report := do
  return Report.sum (← Program.ofJob (files.mapM job))

structure GraphsRequest where
  places : Places
  scheme : Option String
  minBlocks : Option Int
  maskRegisters : Option Bool
  nodeLabels : Option String
  architecture : Option String

def graphsOptions : List OptionName :=
  wordOption "scheme" ["--feature-scheme", "-f"] ++
    wordOption "min-blocks" ["--min-blocks", "-m"] ++
    pairOption "reg-norm" "--reg-norm" "--no-reg-norm" ++
    wordOption "node-labels" ["--node-labels"] ++ wordOption "arch" ["--arch", "-a"] ++
    placeOptions

def GraphsRequest.ofArguments (arguments : Arguments) : Except UsageFault GraphsRequest := do
  let minBlocks ← arguments.integer? "min-blocks" 0
  let places ← Places.ofArguments arguments
  return {
    places
    scheme := arguments.word? "scheme"
    minBlocks
    maskRegisters := arguments.switch? "reg-norm"
    nodeLabels := arguments.word? "node-labels"
    architecture := arguments.word? "arch" }

def GraphsRequest.options (request : GraphsRequest) (settings : GenerateSettings) :
    Except Fault GraphOptions := do
  let scheme ← Scheme.parse (request.scheme.getD settings.scheme)
  let architecture ← architectureOf request.architecture
  let labels ← NodeLabel.parse (request.nodeLabels.getD settings.nodeLabels)
  return {
    directory := request.places.output
    features := { scheme, maskRegisters := request.maskRegisters.getD settings.maskRegisters }
    minBlocks := request.minBlocks.getD settings.minBlocks
    labels
    architecture }

/-- Makes graphs. The schemes that need a model are not for the command line. -/
def runGraphs (context : Context) (request : GraphsRequest) : Program Unit := do
  let options ← Program.orFail (request.options context.settings.generate)
  let scheme := options.features.scheme
  if scheme = .embedded || scheme = .encoded then
    Program.fail
      ("The " ++ scheme.name ++ " scheme needs an embedding provider; use the Python API")
  else
    let files ← inputFiles request.places
    let report ← Program.ofJob (graphsOfFiles options context.workers files)
    finish (scheme.name ++ " graphs") report

structure CorporaRequest where
  places : Places
  scheme : String
  format : String
  minBlocks : Option Int
  maskRegisters : Option Bool
  randomWalk : Bool
  pairs : Bool

def corporaOptions : List OptionName :=
  wordOption "scheme" ["--feature-scheme", "-f"] ++ wordOption "format" ["--format"] ++
    wordOption "min-blocks" ["--min-blocks", "-m"] ++
    pairOption "reg-norm" "--reg-norm" "--no-reg-norm" ++
    switchOption "random-walk" ["--random-walk"] ++ switchOption "pairs" ["--pairs"] ++
    placeOptions

def CorporaRequest.ofArguments (arguments : Arguments) : Except UsageFault CorporaRequest := do
  let minBlocks ← arguments.integer? "min-blocks" 0
  let places ← Places.ofArguments arguments
  return {
    places
    scheme := (arguments.word? "scheme").getD "esil"
    format := (arguments.word? "format").getD "funcstring"
    minBlocks
    maskRegisters := arguments.switch? "reg-norm"
    randomWalk := arguments.isOn "random-walk"
    pairs := arguments.isOn "pairs" }

def runCorpora (context : Context) (request : CorporaRequest) : Program Unit := do
  if request.format ≠ "funcstring" && request.format ≠ "single" then
    Program.fail
      ("Unknown output format " ++ quoted request.format ++ " (choose funcstring or single)")
  let scheme ← Program.orFail (Scheme.parse request.scheme)
  if !scheme.isTextual then
    Program.fail "NLP output supports the esil and disasm schemes only"
  if (request.randomWalk || request.pairs) && request.format ≠ "single" then
    Program.fail "--random-walk and --pairs need --format single"
  let settings := context.settings.generate
  let files ← inputFiles request.places
  let options : CorpusOptions := {
    directory := request.places.output
    scheme
    minBlocks := request.minBlocks.getD settings.minBlocks
    maskRegisters := request.maskRegisters.getD settings.maskRegisters
    single := request.format = "single"
    randomWalk := request.randomWalk || request.pairs
    pairs := request.pairs }
  let report ← Program.ofJob (corporaOfFiles options context.workers files)
  finish (scheme.name ++ " corpora") report

def summariesOptions : List OptionName :=
  wordOption "arch" ["--arch", "-a"] ++ placeOptions

def runSummaries (architecture : Option String) (places : Places) : Program Unit := do
  let architecture ← Program.orFail (architectureOf architecture)
  let files ← inputFiles places
  finish "tiknib function features"
    (← inTurn (summariesOfFile places.output architecture) files)

def callGraphsOptions : List OptionName :=
  switchOption "one-hop" ["--one-hop"] ++ placeOptions

def runCallGraphs (hop : Bool) (places : Places) : Program Unit := do
  let files ← inputFiles places
  finish (if hop then "one-hop call graphs" else "call graphs")
    (← inTurn (callGraphsOfFile places.output hop) files)

def metadataOptions : List OptionName :=
  switchOption "extended" ["--extended"] ++ placeOptions

def runMetadata (extended : Bool) (places : Places) : Program Unit := do
  let files ← inputFiles places
  finish "function metadata" (← inTurn (metadataOfFile places.output extended) files)

end FlowCorpus.Cli
