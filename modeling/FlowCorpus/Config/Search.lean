import FlowCorpus.Config.Settings
import FlowCorpus.Storage.Workspace
import FlowCorpus.Yaml.Document

/-!
# Configuration files

A configuration file is the one that is named, or the one that a variable names, or the first one
that is found in the search directories. Without one the settings are the defaults.
-/

set_option autoImplicit false

namespace FlowCorpus.Config

open FlowCorpus.Schema FlowCorpus.Storage

def fileVariable : String := "CFGML_CONFIG"

def fileNames : List String :=
  ["cfgml.yaml", "cfgml.yml", ".cfgml.yaml", ".cfgml.yml"]

structure Surroundings where
  env : Environment := []
  directories : List Path := []

/-- The directories where configuration files are looked for: the working directory, and two in the
home directory. -/
def usualDirectories (home : Path) : List Path :=
  [Path.ofText ".", home.below ".config/cfgml", home]

/-- The file that is named, by a caller or else by a variable that is not empty. -/
def namedFile? (env : Environment) (given : Option String) : Option String :=
  given.or ((env.lookup fileVariable).filter fun name => !name.isEmpty)

def firstFile? (tree : Tree) : List Path → Except Fault (Option Path)
  | [] => .ok none
  | path :: rest => do
    if ← tree.isFile path then return some path else firstFile? tree rest

def searchPaths (directories : List Path) : List Path :=
  directories.flatMap fun directory => fileNames.map directory.below

def findFile (surroundings : Surroundings) (tree : Tree) (given : Option String) :
    Except Fault (Option Path) :=
  match namedFile? surroundings.env given with
  | some name => firstFile? tree [Path.ofText name]
  | none => firstFile? tree (searchPaths surroundings.directories)

def sortedIssues (issues : List Issue) : List Issue :=
  issues.mergeSort fun a b => Path.namesLe a.location b.location

/-- The value of a configuration text. A document that counts as false is an empty mapping. -/
def configDatum (path : Path) (s : String) : Except Fault Datum :=
  match Yaml.read s.toList with
  | .ok d => .ok (if d.isTruthy then d else .mapping [])
  | .error (.fault fault) => .error fault
  | .error (.problem problem) => .error (.invalidYaml path.text (problem.text s.toList))

def settingsOf (env : Environment) (path : Path) (s : String) : Except Fault Settings := do
  match Settings.ofDatum env (← configDatum path s) with
  | .valid settings => return settings
  | .invalid issues => throw (.invalidSettings path.text issues)

/-- The settings. A file that a caller names and that is not there is reported. -/
def loadSettings (surroundings : Surroundings) (given : Option String) : Job Settings := do
  match ← Job.ask fun tree => findFile surroundings tree given with
  | none => do
    given.forM fun name => Job.report (.settingsNotFound name)
    return {}
  | some path => do
    let s ← Job.ask fun tree => tree.readText path
    let settings ← Job.ofExcept (settingsOf surroundings.env path s)
    Job.report (.settingsLoaded path.text)
    return settings

end FlowCorpus.Config
