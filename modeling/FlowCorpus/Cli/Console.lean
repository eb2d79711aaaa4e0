import FlowCorpus.Cli.Markup
import FlowCorpus.Cli.Usage
import FlowCorpus.Config.Logging
import FlowCorpus.Config.Search

/-!
# Console

What a command shows, and how it ends. A command works in a workspace, and what it has shown stays
when it stops. Shown texts are markup, and so are names and messages within them; a text whose
markup is broken stops the command.
-/

set_option autoImplicit false

namespace FlowCorpus.Cli

open FlowCorpus.Config FlowCorpus.Json FlowCorpus.Storage

/-- Something that is shown. -/
inductive Display where
  /-- A table of rows. -/
  | table (rows : List Fields) (title : String)
  /-- The outcome of a batch. -/
  | summary (title : String) (processed skipped failed : Int)
  /-- A message of success. -/
  | success (message : String)
  /-- A message of failure with its details. -/
  | error (message : String) (detail : String)
  /-- A warning. -/
  | warning (message : String)

def cellText : Value → String
  | .str s => s.replaced
  | value => value.render

def tableTexts (rows : List Fields) : List (List String) :=
  match rows with
  | [] => [["[dim]No results.[/dim]"]]
  | row :: _ =>
    (row.map fun (name, _) => name.replaced) ::
      rows.map fun row => row.map fun (_, value) => cellText value

def Display.texts : Display → List (List String)
  | .table rows title => [title] :: tableTexts rows
  | .summary title processed skipped failed =>
    [title] :: tableTexts
      [[("Processed", .int processed), ("Skipped", .int skipped), ("Failed", .int failed)]]
  | .success message => [["[bold green]" ++ message ++ "[/bold green]"]]
  | .error message detail => [["[bold red]Error:[/bold red] " ++ message ++ detail]]
  | .warning message => [["[bold yellow]Warning:[/bold yellow] " ++ message]]

def Display.lines (d : Display) : List String :=
  d.texts.map fun texts => " | ".intercalate (texts.map plainText)

def Display.check (d : Display) : Except Fault Unit :=
  d.texts.forM fun texts => texts.forM checkMarkup

def Display.isProblem : Display → Bool
  | .error .. | .warning _ => true
  | .table .. | .summary .. | .success _ => false

/-- Why a command stops early. -/
inductive Stop where
  /-- With an exit code, having shown why. -/
  | exit (code : Nat)
  /-- For a wrong command line. -/
  | usage (fault : UsageFault)
  /-- With a fault that no one has dealt with. -/
  | fault (f : Fault)

/-- A workspace with how its events are shown, what was shown in it, and the text that was put
out. -/
structure Session where
  workspace : Workspace := {}
  logging : Logging := {}
  displays : List Display := []
  output : String := ""

abbrev Program (α : Type) := ExceptT Stop (StateM Session) α

namespace Program

variable {α : Type}

def display (d : Display) : Program Unit := do
  modify fun s => { s with displays := s.displays ++ [d] }
  match d.check with
  | .ok _ => return
  | .error fault => throw (.fault fault)

def putOut (s : String) : Program Unit :=
  modify fun session => { session with output := session.output ++ s }

/-- A result that has to be there; without it the command line is wrong. -/
def orUsage : Except UsageFault α → Program α
  | .ok a => return a
  | .error fault => throw (.usage fault)

def ofJob (job : Job α) : Program α := do
  let (result, workspace) := (ExceptT.run job).run (← get).workspace
  modify fun s => { s with workspace }
  match result with
  | .ok a => return a
  | .error fault => throw (.fault fault)

def fail (message : String) : Program α := do
  display (.error message "")
  throw (.exit 1)

def failWith (fault : Fault) : Program α := do
  display (.error fault.logText fault.detail)
  throw (.exit 1)

/-- A result that has to be there; the wording of a fault is a message of failure. -/
def orFail : Except Fault α → Program α
  | .ok a => return a
  | .error fault => failWith fault

/-- The result of a computation; a fault of the domain is a message of failure. -/
def ofJobOrFail (job : Job α) : Program α := do
  match ← ofJob (Job.attempt job) with
  | .ok a => return a
  | .error fault =>
    match fault.kind with
    | .domain | .architecture | .load => failWith fault
    | _ => throw (.fault fault)

end Program

def usageExit : Nat := 2

structure Ending where
  exit : Nat
  stop : Option Stop := none

def Stop.exitCode : Stop → Nat
  | .exit code => code
  | .usage _ => usageExit
  | .fault _ => 1

/-- The wording of a stop that has shown nothing itself. -/
def Stop.message? : Stop → Option String
  | .exit _ => none
  | .usage problem => some problem.message
  | .fault f => some f.logText

def Stop.fault? : Stop → Option Fault
  | .fault f => some f
  | _ => none

def Program.run {α : Type} (program : Program α) (workspace : Workspace) : Ending × Session :=
  match (ExceptT.run program).run { workspace } with
  | (.ok _, session) => (⟨0, none⟩, session)
  | (.error stop, session) => (⟨stop.exitCode, some stop⟩, session)

end FlowCorpus.Cli
