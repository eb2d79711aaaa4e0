import FlowCorpus.Cli.Dedup

/-!
# The command line

The options of the program come first, then the name of a group, the name of a command in it, and
what belongs to the command. The configuration is loaded when the group is known and before the rest
of the line is read.
-/

set_option autoImplicit false

namespace FlowCorpus.Cli

open FlowCorpus.Config FlowCorpus.Storage

def version : String := "0.1.0"

def versionText : String := "cfgml " ++ version ++ "\n"

/-- A command of the program with what it is asked for. -/
inductive Command where
  | graphs (request : GraphsRequest)
  | corpora (request : CorporaRequest)
  | summaries (architecture : Option String) (places : Places)
  | callGraphs (hop : Bool) (places : Places)
  | metadata (extended : Bool) (places : Places)
  | records (request : RecordsRequest)
  | dedupGraphs (request : DedupGraphsRequest)

/-- What a part of a command line comes to: help is asked for, or something else. -/
inductive Asked (α : Type) where
  | help
  | run (a : α)

/-- Reads the words of a command. Help goes before everything but options that are unknown. -/
def readCommandWords {α : Type} (options : List OptionName)
    (read : Arguments → Except UsageFault α) (words : List String) :
    Except UsageFault (Asked α) := do
  let arguments ← scan options true words
  if arguments.isOn "help" then return .help
  else return .run (← read arguments)

def readGenerate (name : String) (words : List String) : Except UsageFault (Asked Command) :=
  match name with
  | "graphs" =>
    readCommandWords graphsOptions (fun a => .graphs <$> GraphsRequest.ofArguments a) words
  | "nlp" =>
    readCommandWords corporaOptions (fun a => .corpora <$> CorporaRequest.ofArguments a) words
  | "tiknib" =>
    readCommandWords summariesOptions
      (fun a => .summaries (a.word? "arch") <$> Places.ofArguments a) words
  | "callgraphs" =>
    readCommandWords callGraphsOptions
      (fun a => .callGraphs (a.isOn "one-hop") <$> Places.ofArguments a) words
  | "metadata" =>
    readCommandWords metadataOptions
      (fun a => .metadata (a.isOn "extended") <$> Places.ofArguments a) words
  | name => .error (.unknownCommand name)

def readDedup (name : String) (words : List String) : Except UsageFault (Asked Command) :=
  match name with
  | "records" =>
    readCommandWords recordsOptions (fun a => .records <$> RecordsRequest.ofArguments a) words
  | "graphs" =>
    readCommandWords dedupGraphsOptions
      (fun a => .dedupGraphs <$> DedupGraphsRequest.ofArguments a) words
  | name => .error (.unknownCommand name)

/-- The groups of commands. -/
inductive Group where
  | generate
  | dedup
deriving DecidableEq, Repr

def Group.commands : Group → List String
  | .generate => ["graphs", "nlp", "tiknib", "callgraphs", "metadata"]
  | .dedup => ["records", "graphs"]

def Group.parse (name : String) : Except UsageFault Group :=
  match name with
  | "generate" => .ok .generate
  | "dedup" => .ok .dedup
  | name => .error (.unknownCommand name)

def Group.commandOf (group : Group) (name : String) (words : List String) :
    Except UsageFault (Asked Command) :=
  match group with
  | .generate => readGenerate name words
  | .dedup => readDedup name words

/-- A command of a group. Words that begin with no command are read for options once more, so that
help may stand behind two dashes. -/
def Group.readCommand (group : Group) (words : List String) :
    Except UsageFault (Asked Command) := do
  let arguments ← scan helpOption false words
  if arguments.isOn "help" then return .help
  else
    match arguments.rest with
    | [] => throw .missingCommand
    | name :: words =>
      if group.commands.contains name then group.commandOf name words
      else
        let again ← scan helpOption false arguments.rest
        if again.isOn "help" then return .help else throw (.unknownCommand name)

structure Start where
  config : Option String := none
  verbose : Bool := false
  jsonLogs : Bool := false
  workers : Option Int := none
  group : Group
  words : List String

def programOptions : List OptionName :=
  wordOption "config" ["--config", "-C"] ++ switchOption "verbose" ["--verbose", "-v"] ++
    switchOption "json-logs" ["--json-logs"] ++ wordOption "workers" ["--workers", "-w"] ++
    switchOption "version" ["--version", "-V"] ++
    switchOption "completion" ["--install-completion", "--show-completion"] ++ helpOption

/-- What the beginning of a command line asks for. -/
inductive Opening where
  | help
  | version
  | completion
  | start (s : Start)

/-- What options ask for in place of a command: help or the version, whichever is given first, and
else completion, unless a number of workers that is none is given before it. -/
def askedInstead? (arguments : Arguments) : Except UsageFault (Option Opening) :=
  match arguments.given.find? fun given => given.1 == "help" || given.1 == "version" with
  | some ("help", _) => .ok (some .help)
  | some _ => .ok (some .version)
  | none => do
    let first := arguments.given.find? fun given => given.1 == "completion" || given.1 == "workers"
    match first with
    | some ("completion", _) => return some .completion
    | _ =>
      let _ ← arguments.integer? "workers" 1
      return if arguments.isOn "completion" then some .completion else none

/-- Reads the beginning of a command line. Help and version go before everything but options that
are unknown. Words that begin with no group are read for options once more, so that help and version
may stand behind two dashes. -/
def readOpening (words : List String) : Except UsageFault Opening := do
  let arguments ← scan programOptions false words
  match ← askedInstead? arguments with
  | some opening => return opening
  | none =>
    match arguments.rest with
    | [] => throw .missingCommand
    | name :: words =>
      match Group.parse name with
      | .ok group =>
        return .start {
          config := arguments.word? "config"
          verbose := arguments.isOn "verbose"
          jsonLogs := arguments.isOn "json-logs"
          workers := ← arguments.integer? "workers" 1
          group
          words }
      | .error fault =>
        match ← askedInstead? (← scan programOptions false arguments.rest) with
        | some opening => return opening
        | none => throw fault

def Command.run (context : Context) : Command → Program Unit
  | .graphs request => runGraphs context request
  | .corpora request => runCorpora context request
  | .summaries architecture places => runSummaries architecture places
  | .callGraphs hop places => runCallGraphs hop places
  | .metadata extended places => runMetadata extended places
  | .records request => runRecords context request
  | .dedupGraphs request => runDedupGraphs context request

def prepare (surroundings : Surroundings) (start : Start) : Program Context := do
  let settings ← Program.ofJobOrFail (loadSettings surroundings start.config)
  let level := if start.verbose then "DEBUG" else settings.runtime.logLevel
  let least ← Program.ofJob (Job.ofExcept (levelNumber level))
  let json := start.jsonLogs || settings.runtime.jsonLogs
  modify fun session => { session with logging := { least, json } }
  return ⟨settings, start.workers.getD settings.runtime.workers⟩

def helpText : String :=
  "Usage: cfgml [--config FILE] [--workers N] [--verbose] [--json-logs] GROUP COMMAND ...\n" ++
    "generate graphs|nlp|tiknib|callgraphs|metadata PATH --output DIRECTORY [--recursive] ...\n" ++
    "dedup records|graphs DIRECTORY --output DIRECTORY ...\n"

def completionText : String :=
  "complete -W \"" ++
    " ".intercalate (["generate", "dedup"] ++ Group.generate.commands ++ ["records"] ++
      (programOptions.map OptionName.name)) ++ "\" cfgml\n"

def runGroup (surroundings : Surroundings) (start : Start) : Program Unit := do
  let context ← prepare surroundings start
  match ← Program.orUsage (start.group.readCommand start.words) with
  | .help => Program.putOut helpText
  | .run command => command.run context

def run (surroundings : Surroundings) (words : List String) : Program Unit := do
  match ← Program.orUsage (readOpening words) with
  | .help => Program.putOut helpText
  | .version => Program.putOut versionText
  | .completion => Program.putOut completionText
  | .start start => runGroup surroundings start

def Command.paths : Command → List Path
  | .graphs request => [request.places.input, request.places.output]
  | .corpora request => [request.places.input, request.places.output]
  | .summaries _ places | .callGraphs _ places | .metadata _ places =>
    [places.input, places.output]
  | .records request => request.directory :: request.output.toList
  | .dedupGraphs request => [request.directory, request.output]

/-- The paths that a command line leads to: those of configuration files and those of its command.
-/
def pathsOf (surroundings : Surroundings) (words : List String) : List Path :=
  match readOpening words with
  | .ok (.start start) =>
    let config :=
      match namedFile? surroundings.env start.config with
      | some name => [Path.ofText name]
      | none => searchPaths surroundings.directories
    match start.group.readCommand start.words with
    | .ok (.run command) => config ++ command.paths
    | _ => config
  | _ => []

end FlowCorpus.Cli
