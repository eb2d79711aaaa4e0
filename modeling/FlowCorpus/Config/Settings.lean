import FlowCorpus.Config.Environment
import FlowCorpus.Fault
import FlowCorpus.Schema.Field

/-!
# Settings

The settings of the program in three sections. A setting that is not given has a default, and one
that does not fit is reported together with all others.
-/

set_option autoImplicit false

namespace FlowCorpus.Config

open FlowCorpus.Json FlowCorpus.Schema

structure GenerateSettings where
  minBlocks : Int := 5
  scheme : String := "gemini"
  maskRegisters : Bool := false
  nodeLabels : String := "index"
deriving DecidableEq, Repr

structure DedupSettings where
  pathFormat : String := "cisco"
  justValue : Bool := false
  printStatistics : Bool := false
deriving DecidableEq, Repr

structure RuntimeSettings where
  workers : Int := 2
  logLevel : String := "INFO"
  jsonLogs : Bool := false
deriving DecidableEq, Repr

structure Settings where
  generate : GenerateSettings := {}
  dedup : DedupSettings := {}
  runtime : RuntimeSettings := {}
deriving DecidableEq, Repr

namespace Settings

def readGenerate (entries : Entries) : Checked GenerateSettings :=
  let default : GenerateSettings := {}
  GenerateSettings.mk <$> defaulted default.minBlocks (integerFrom 0) "min_blocks" entries
    <*> defaulted default.scheme text "feature_scheme" entries
    <*> defaulted default.maskRegisters boolean "reg_norm" entries
    <*> defaulted default.nodeLabels (oneOf ["index", "address"]) "node_labels" entries

def readDedup (entries : Entries) : Checked DedupSettings :=
  let default : DedupSettings := {}
  DedupSettings.mk
    <$> defaulted default.pathFormat (oneOf ["cisco", "binkit"]) "filepath_format" entries
    <*> defaulted default.justValue boolean "hash_just_value" entries
    <*> defaulted default.printStatistics boolean "print_stats" entries

def readRuntime (entries : Entries) : Checked RuntimeSettings :=
  let default : RuntimeSettings := {}
  RuntimeSettings.mk <$> defaulted default.workers (integerFrom 1) "workers" entries
    <*> defaulted default.logLevel text "log_level" entries
    <*> defaulted default.jsonLogs boolean "json_logs" entries

def readSections (entries : Entries) : Checked Settings :=
  Settings.mk <$> nested {} "GenerateConfig" readGenerate "generate" entries
    <*> nested {} "DedupConfig" readDedup "dedup" entries
    <*> nested {} "RuntimeConfig" readRuntime "runtime" entries

/-- The settings of a value, its placeholders replaced, or all that is wrong with it. -/
def ofDatum (env : Environment) (d : Datum) : Checked Settings :=
  checkEntries "CfgMLConfig" readSections (interpolateDatum env d)

def sections (settings : Settings) : List (String × Fields) :=
  let g := settings.generate
  let d := settings.dedup
  let r := settings.runtime
  [("generate",
      [("min_blocks", .int g.minBlocks), ("feature_scheme", .str g.scheme),
        ("reg_norm", .bool g.maskRegisters), ("node_labels", .str g.nodeLabels)]),
    ("dedup",
      [("filepath_format", .str d.pathFormat), ("hash_just_value", .bool d.justValue),
        ("print_stats", .bool d.printStatistics)]),
    ("runtime",
      [("workers", .int r.workers), ("log_level", .str r.logLevel),
        ("json_logs", .bool r.jsonLogs)])]

end Settings

def sectionsJson (sections : List (String × Fields)) : Value :=
  .obj (sections.map fun (name, fields) => (name, .obj fields))

/-- The fields of a section with other values for some of them. The values are not checked, and
fields that the section does not have are left out. -/
def overrideFields (fields changes : Fields) : Fields :=
  fields.map fun (name, value) => (name, (Fields.get? changes name).getD value)

def givenFields (changes : Fields) : Fields :=
  changes.filter fun change => change.2 != .null

/-- Names that no change can have, since they stand for the configuration and its section. -/
def reservedNames : List Text.LooseText := ["config", "section"]

/-- Settings with other values in one section, where they are given. A section that is not there has
no fields. -/
def overrideSection (target : String) (changes : Fields) (sections : List (String × Fields)) :
    Except Fault (List (String × Fields)) :=
  let given := givenFields changes
  if changes.any fun change => reservedNames.contains change.1 then .error .wrongType
  else if given.isEmpty then .ok sections
  else if (sections.lookup target).isNone then .error .noFields
  else
    .ok (sections.map fun (name, fields) =>
      if name = target then (name, overrideFields fields given) else (name, fields))

end FlowCorpus.Config
