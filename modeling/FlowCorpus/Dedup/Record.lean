import FlowCorpus.Dedup.Statistics
import FlowCorpus.Digest.Sha256
import FlowCorpus.Storage.Path

/-!
# Deduplication of records

A record is a function with a text and the origin of its file. Of the records with one digest the
first is kept. A digest is that of the text alone, or of the name and the text with a zero byte
between them. A text with half a surrogate pair has no bytes, and its record has no digest.
-/

set_option autoImplicit false

namespace FlowCorpus.Dedup

open FlowCorpus.Digest FlowCorpus.Json FlowCorpus.Storage FlowCorpus.Text

structure Record where
  name : LooseText
  data : LooseText
  triple : String
deriving DecidableEq, Repr

structure Kept where
  name : LooseText
  digest : String
  data : LooseText
  triple : String
deriving DecidableEq, Repr

namespace Kept

def toJson (kept : Kept) : Value :=
  .obj [("name", .str kept.name), ("hash", .str kept.digest), ("data", .str kept.data),
    ("triple", .str kept.triple)]

end Kept

def bytesOf : LooseText → Except Fault (List UInt8)
  | .whole s => .ok (utf8 s)
  | .halved t => .error (.notEncodable t.place t.firstHalves)

def digestBytes (justValue : Bool) (name data : LooseText) : Except Fault (List UInt8) :=
  if justValue then bytesOf data
  else do return (← bytesOf name) ++ 0 :: (← bytesOf data)

def recordDigest (justValue : Bool) (name data : LooseText) : Except Fault String := do
  return sha256 (← digestBytes justValue name data)

def Record.kept (justValue : Bool) (record : Record) : Except Fault Kept := do
  let digest ← recordDigest justValue record.name record.data
  return ⟨record.name, digest, record.data, record.triple⟩

/-- The items whose key no earlier item has, and no key that was seen before. -/
def firstsAfter {α : Type} (key : α → String) (seen : List String) : List α → List α
  | [] => []
  | a :: rest =>
    if seen.contains (key a) then firstsAfter key seen rest
    else a :: firstsAfter key (key a :: seen) rest

def firsts {α : Type} (key : α → String) (items : List α) : List α :=
  firstsAfter key [] items

def firstKept (records : List Kept) : List Kept × Statistics :=
  let kept := firsts Kept.digest records
  (kept, ⟨records.length, kept.length⟩)

/-- Deduplicates records; every one of them has to have a digest. -/
def deduplicate (justValue : Bool) (records : List Record) :
    Except Fault (List Kept × Statistics) := do
  return firstKept (← records.mapM (Record.kept justValue))

/-- A file of records. The last token of its name tells the binary, the first one its origin. -/
structure RecordFile where
  path : Path
  binary : String
  triple : String
deriving DecidableEq, Repr

def tokensOf (name : String) : List String :=
  (split '_' name.toList).map String.ofList

def RecordFile.ofPath (path : Path) : RecordFile :=
  let tokens := tokensOf path.stem
  ⟨path, tokens.getLastD "", tokens.headD ""⟩

end FlowCorpus.Dedup
