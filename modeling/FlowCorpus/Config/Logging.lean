import FlowCorpus.Journal
import FlowCorpus.Json.Printer
import FlowCorpus.Text.Case

/-!
# Levels of logging

The number of a level by its name in either case. An unknown name stands for the usual level; two
names belong to other things of the logging system, which are no levels. Events below the least
level of a run are not shown.
-/

set_option autoImplicit false

namespace FlowCorpus.Config

open FlowCorpus.Json FlowCorpus.Text

def logLevels : List (String × Nat) :=
  [("CRITICAL", 50), ("FATAL", 50), ("ERROR", 40), ("WARNING", 30), ("WARN", 30), ("INFO", 20),
    ("DEBUG", 10), ("NOTSET", 0)]

def usualLevel : Nat := 20

def levelNumber (name : String) : Except Fault Nat :=
  let name := String.ofList (name.toList.flatMap upper)
  if name = "BASIC_FORMAT" then .error (.unknownLevel name)
  else if name = "_STYLES" then .error .levelNotNumber
  else .ok ((logLevels.lookup name).getD usualLevel)

def levelOf : Level → Nat
  | .debug => 10
  | .info => 20
  | .warning => 30
  | .error => 40

structure Logging where
  least : Nat := usualLevel
  json : Bool := false
deriving DecidableEq, Repr

def Logging.line? (logging : Logging) (event : Event) : Option String :=
  if levelOf event.level < logging.least then none
  else if logging.json then
    let named : Fields := [("event", .str event.name), ("level", .str event.level.name)]
    some (Value.obj (event.fields ++ named)).render
  else
    some (" ".intercalate
      (event.level.name :: event.name :: event.fields.map fun (key, value) =>
        key.replaced ++ "=" ++ value.render))

end FlowCorpus.Config
