import FlowCorpus.Fault
import FlowCorpus.Json.Basic

/-!
# Journal

What an operation reports while it runs: a list of events in order. A traced computation may stop
at a fault, and what it had reported before stays in the journal.
-/

set_option autoImplicit false

namespace FlowCorpus

open FlowCorpus.Json

/-- How much an event matters. -/
inductive Level where
  | debug
  | info
  | warning
  | error
deriving DecidableEq, Repr

def Level.name : Level → String
  | .debug => "debug"
  | .info => "info"
  | .warning => "warning"
  | .error => "error"

/-- Something worth reporting. -/
inductive Event where
  | malformedRecord (path : String) (record : Nat)
  | malformedFunction (path : String) (record : Nat) (fault : Fault)
  | fileLoadFailed (path : String)
  | loadedFunctions (path : String) (functions malformed : Nat)
  | cfgSkipped (function : String) (blocks : Nat)
  | featureCountMismatch (function : String) (nodes features : Nat)
  | featureLengthMismatch (function problem : String)
  | emptyFeatureVector (scheme : String) (block : Int)
  | functionExcluded (function : String)
  | noEdges (function : String)
  | functionAlreadyProcessed (function path : String)
  | fileAlreadyProcessed (path : String)
  | graphWritten (function : String) (nodes : Nat) (path : String)
  | architectureUndetected (path : String)
  | functionFailed (path function : String)
  | fileProcessed (path : String) (processed skipped failed : Int)
  | fileFailed (path : String) (fault : Fault)
  | corpusWritten (path : String) (functions : Nat)
  | callGraphsWritten (path : String) (processed : Int) (oneHop : Bool)
  | metadataWritten (path : String) (functions malformed : Nat)
  | unparsablePath (path problem : String)
  | groupDeduplicated (binary : String) (total unique : Nat)
  | poolStarted (workers tasks : Nat)
  | taskFailed (index : Nat) (problem : String)
  | settingsLoaded (path : String)
  | settingsNotFound (path : String)
deriving DecidableEq, Repr

namespace Event

def level : Event → Level
  | .loadedFunctions .. | .cfgSkipped .. | .functionAlreadyProcessed .. | .fileAlreadyProcessed _
  | .graphWritten .. | .poolStarted .. | .settingsLoaded _ => .debug
  | .noEdges _ | .fileProcessed .. | .corpusWritten .. | .callGraphsWritten ..
  | .metadataWritten .. | .groupDeduplicated .. => .info
  | .malformedRecord .. | .malformedFunction .. | .featureCountMismatch ..
  | .featureLengthMismatch .. | .emptyFeatureVector .. | .functionExcluded _ | .unparsablePath ..
  | .settingsNotFound _ => .warning
  | .fileLoadFailed _ | .architectureUndetected _ | .functionFailed .. | .fileFailed ..
  | .taskFailed .. => .error

def name : Event → String
  | .malformedRecord .. => "malformed_record"
  | .malformedFunction .. => "malformed_function"
  | .fileLoadFailed _ => "file_load_failed"
  | .loadedFunctions .. => "loaded_functions"
  | .cfgSkipped .. => "cfg_skipped"
  | .featureCountMismatch .. => "feature_count_mismatch"
  | .featureLengthMismatch .. => "feature_length_mismatch"
  | .emptyFeatureVector .. => "empty_feature_vector"
  | .functionExcluded _ => "function_excluded"
  | .noEdges _ => "no_edges"
  | .functionAlreadyProcessed .. | .fileAlreadyProcessed _ => "already_processed"
  | .graphWritten .. => "graph_written"
  | .architectureUndetected _ => "architecture_undetected"
  | .functionFailed .. => "function_failed"
  | .fileProcessed .. => "file_processed"
  | .fileFailed .. => "file_failed"
  | .corpusWritten .. => "nlp_written"
  | .callGraphsWritten .. => "call_graphs_written"
  | .metadataWritten .. => "metadata_written"
  | .unparsablePath .. => "unparsable_filepath"
  | .groupDeduplicated .. => "group_deduplicated"
  | .poolStarted .. => "pool_start"
  | .taskFailed .. => "task_failed"
  | .settingsLoaded _ => "config_loaded"
  | .settingsNotFound _ => "config_not_found"

def count (n : Nat) : Value :=
  .int n

def fields : Event → Fields
  | .malformedRecord path record => [("path", .str path), ("record", count record)]
  | .malformedFunction path record _ => [("path", .str path), ("record", count record)]
  | .fileLoadFailed path => [("path", .str path)]
  | .loadedFunctions path functions malformed =>
    [("path", .str path), ("functions", count functions), ("malformed", count malformed)]
  | .cfgSkipped function blocks => [("function", .str function), ("blocks", count blocks)]
  | .featureCountMismatch function nodes features =>
    [("function", .str function), ("nodes", count nodes), ("features", count features)]
  | .featureLengthMismatch function problem =>
    [("function", .str function), ("error", .str problem)]
  | .emptyFeatureVector scheme block => [("scheme", .str scheme), ("block", .int block)]
  | .functionExcluded function =>
    [("function", .str function), ("reason", .str "empty_features")]
  | .noEdges function => [("function", .str function)]
  | .functionAlreadyProcessed function path =>
    [("function", .str function), ("path", .str path)]
  | .fileAlreadyProcessed path => [("path", .str path)]
  | .graphWritten function nodes path =>
    [("function", .str function), ("nodes", count nodes), ("path", .str path)]
  | .architectureUndetected path => [("path", .str path)]
  | .functionFailed path function => [("path", .str path), ("function", .str function)]
  | .fileProcessed path processed skipped failed =>
    [("path", .str path), ("processed", .int processed), ("skipped", .int skipped),
      ("failed", .int failed)]
  | .fileFailed path _ => [("path", .str path)]
  | .corpusWritten path functions => [("path", .str path), ("functions", count functions)]
  | .callGraphsWritten path processed oneHop =>
    [("path", .str path), ("processed", .int processed), ("one_hop", .bool oneHop)]
  | .metadataWritten path functions malformed =>
    [("path", .str path), ("functions", count functions), ("malformed", count malformed)]
  | .unparsablePath path problem => [("path", .str path), ("error", .str problem)]
  | .groupDeduplicated binary total unique =>
    [("binary", .str binary), ("original", count total), ("unique", count unique)]
  | .poolStarted workers tasks => [("workers", count workers), ("tasks", count tasks)]
  | .taskFailed index problem => [("index", count index), ("error", .str problem)]
  | .settingsLoaded path => [("path", .str path)]
  | .settingsNotFound path => [("path", .str path)]

def fault? : Event → Option Fault
  | .malformedFunction _ _ fault => some fault
  | .fileFailed _ fault => some fault
  | _ => none

end Event

/-- A computation that reports events as it goes and may stop at a fault. -/
abbrev Traced (α : Type) := ExceptT Fault (StateM (List Event)) α

namespace Traced

def report (event : Event) : Traced Unit :=
  modify (· ++ [event])

/-- A result that may be a fault, with nothing to report. -/
def ofExcept {α : Type} : Except Fault α → Traced α
  | .ok a => pure a
  | .error fault => throw fault

def run {α : Type} (t : Traced α) : Except Fault α × List Event :=
  (ExceptT.run t).run []

end Traced
end FlowCorpus
