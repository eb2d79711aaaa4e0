import FlowCorpus.Batch.Records
import FlowCorpus.Digest.Sha256
import FlowCorpus.Dedup.Record
import FlowCorpus.Exchange.Multigraph
import FlowCorpus.Json.Printer

/-!
# Deduplication of graphs

Graphs are the same when their canonical texts are. Of the graphs of one digest the first is kept.
-/

set_option autoImplicit false

namespace FlowCorpus.Dedup

open FlowCorpus.Batch FlowCorpus.Digest FlowCorpus.Exchange FlowCorpus.Json FlowCorpus.Storage

/-- The digest of a graph: that of its text with sorted keys and without blanks. -/
def graphDigest (graph : Value) : String :=
  sha256 (utf8 graph.canonical)

def graphFields? : Value → Option Fields
  | .obj fields =>
    if (Fields.get? fields "nodes").isSome && (Fields.get? fields "adjacency").isSome then
      some fields
    else none
  | _ => none

def loadGraph (tree : Tree) (path : Path) : Except Fault Fields :=
  let unreadable (fault : Fault) : Fault :=
    match fault.kind with
    | .store _ | .decoding | .parsing => .unreadableGraph path.text
    | _ => fault
  match tree.readText path with
  | .error fault => .error (unreadable fault)
  | .ok s =>
    match decode s with
    | .error fault => .error (unreadable fault)
    | .ok value =>
      match graphFields? value with
      | some fields => .ok fields
      | none => .error (.notAGraph path.text)

def readGraph (tree : Tree) (path : Path) : Except Fault Multigraph := do
  let fields ← loadGraph tree path
  Multigraph.ofFields ((fields.get? "nodes").getD .null) ((fields.get? "adjacency").getD .null)

/-- The places, counted from a number on, of the keys that occur before or were seen. -/
def repeatsFrom (start : Nat) (seen : List String) : List String → List Nat
  | [] => []
  | key :: rest =>
    if seen.contains key then start :: repeatsFrom (start + 1) seen rest
    else repeatsFrom (start + 1) (key :: seen) rest

def repeats (keys : List String) : List Nat :=
  repeatsFrom 0 [] keys

/-- The items without those at some places, which are in ascending order; the last one goes first,
so that the places before it stay right. -/
def withoutPlaces {α : Type} (places : List Nat) (items : List α) : List α :=
  places.foldr (fun place items => items.eraseIdx place) items

/-- How the directories of graph files name a binary. -/
inductive PathFormat where
  | cisco
  | binkit
deriving DecidableEq, Repr

namespace PathFormat

def parse (name : String) : Except Fault PathFormat :=
  if name = "cisco" then .ok .cisco
  else if name = "binkit" then .ok .binkit
  else .error (.notAChoice name .pathFormat)

/-- The binary among the tokens of a directory name: the second token, or the last but one. -/
def binary? : PathFormat → List String → Option String
  | .cisco, _ :: second :: _ => some second
  | .binkit, tokens => (tokens.dropLast).getLast?
  | _, _ => none

end PathFormat

def binaryName (format : Except Fault PathFormat) (path : Path) : Except Fault String := do
  let format ← format
  let directory := path.parent.name
  match format.binary? (tokensOf directory) with
  | some name => return name
  | none => throw (.noBinaryName directory)

end FlowCorpus.Dedup
