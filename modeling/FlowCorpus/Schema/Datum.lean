import FlowCorpus.Json.Printer
import FlowCorpus.Schema.Misfit

/-!
# Data

The values of a document before they are read into typed fields. A document may hold more than JSON
does: bytes, dates, sets, lists of pairs, and mappings whose keys are no texts.
-/

set_option autoImplicit false

namespace FlowCorpus.Schema

open FlowCorpus.Json FlowCorpus.Number FlowCorpus.Text

structure Date where
  year : Nat
  month : Nat
  day : Nat
deriving DecidableEq, Repr

/-- A point in time on a day, with the seconds that its place is ahead of universal time. -/
structure Moment where
  date : Date
  hour : Nat
  minute : Nat
  second : Nat
  microsecond : Nat
  offset : Option Int
deriving DecidableEq, Repr

/-- A value of a document. The keys of a mapping are distinct. A text may hold halves of characters,
which no encoding has; it is kept apart, with a replacement character for every half. -/
inductive Datum where
  | null
  | bool (b : Bool)
  | int (n : Int)
  | float (x : Binary64)
  | text (s : String)
  | halved (s : String)
  | bytes (bs : List UInt8)
  | date (d : Date)
  | moment (m : Moment)
  | list (items : List Datum)
  | mapping (fields : List (Datum × Datum))
  | pairs (items : List (Datum × Datum))
  | set (items : List Datum)
deriving Repr, Inhabited

namespace Datum

def typeName : Datum → String
  | .null => "NoneType"
  | .bool _ => "bool"
  | .int _ => "int"
  | .float _ => "float"
  | .text _ | .halved _ => "str"
  | .bytes _ => "bytes"
  | .date _ => "date"
  | .moment _ => "datetime"
  | .list _ | .pairs _ => "list"
  | .mapping _ => "dict"
  | .set _ => "set"

/-- Zero, nothing, false and everything empty count as false. -/
def isTruthy : Datum → Bool
  | .null => false
  | .bool b => b
  | .int n => n != 0
  | .float x => !x.isZero
  | .text s | .halved s => !s.isEmpty
  | .bytes bs => !bs.isEmpty
  | .date _ | .moment _ => true
  | .list items | .set items => !items.isEmpty
  | .mapping fields | .pairs fields => !fields.isEmpty

end Datum

def shownByte (quote : Char) (b : UInt8) : List Char :=
  let c := Char.ofNat b.toNat
  if c = quote || c = '\\' then ['\\', c]
  else if c = '\t' then ['\\', 't']
  else if c = '\n' then ['\\', 'n']
  else if c = '\r' then ['\\', 'r']
  else if 0x20 ≤ b.toNat && b.toNat < 0x7f then [c]
  else '\\' :: 'x' :: hex 2 b.toNat

def shownBytes (bs : List UInt8) : String :=
  let quote := quoteFor (bs.map fun b => Char.ofNat b.toNat)
  String.ofList ('b' :: quote :: (bs.flatMap (shownByte quote) ++ [quote]))

def Date.parts (d : Date) : List String :=
  [d.year, d.month, d.day].map toString

/-- The zone of a moment: universal time, or the days and seconds ahead of it. -/
def shownZone (offset : Int) : String :=
  if offset = 0 then "datetime.timezone.utc"
  else
    let days := Int.fdiv offset 86400
    let seconds := toString (Int.fmod offset 86400)
    let delta :=
      if days = 0 then "seconds=" ++ seconds
      else "days=" ++ toString days ++ (if seconds = "0" then "" else ", seconds=" ++ seconds)
    "datetime.timezone(datetime.timedelta(" ++ delta ++ "))"

/-- The parts of a moment: no microseconds and seconds when they are zero. -/
def Moment.parts (m : Moment) : List String :=
  let fine :=
    if m.microsecond != 0 then [m.second, m.microsecond]
    else if m.second != 0 then [m.second]
    else []
  m.date.parts ++ (([m.hour, m.minute] ++ fine).map toString) ++
    (m.offset.map fun offset => "tzinfo=" ++ shownZone offset).toList

mutual

def Datum.shown : Datum → String
  | .null => "None"
  | .bool b => if b then "True" else "False"
  | .int n => intText n
  | .float x => x.plain
  | .text s | .halved s => quoted s
  | .bytes bs => shownBytes bs
  | .date d => "datetime.date(" ++ commaSeparated d.parts ++ ")"
  | .moment m => "datetime.datetime(" ++ commaSeparated m.parts ++ ")"
  | .list items => "[" ++ commaSeparated (shownItems items) ++ "]"
  | .mapping fields => "\x7b" ++ commaSeparated (shownFields fields) ++ "\x7d"
  | .pairs items => "[" ++ commaSeparated (shownPairs items) ++ "]"
  | .set items =>
    if items.isEmpty then "set()" else "\x7b" ++ commaSeparated (shownItems items) ++ "\x7d"

def shownItems : List Datum → List String
  | [] => []
  | item :: rest => item.shown :: shownItems rest

def shownFields : List (Datum × Datum) → List String
  | [] => []
  | (key, value) :: rest => (key.shown ++ ": " ++ value.shown) :: shownFields rest

def shownPairs : List (Datum × Datum) → List String
  | [] => []
  | (first, second) :: rest =>
    ("(" ++ first.shown ++ ", " ++ second.shown ++ ")") :: shownPairs rest

end

def Datum.exhibit (d : Datum) : Exhibit :=
  ⟨d.shown, d.typeName⟩

def Datum.ofText : LooseText → Datum
  | .whole s => .text s
  | .halved t => .halved (LooseText.halved t).replaced

mutual

def Datum.ofJson : Value → Datum
  | .null => .null
  | .bool b => .bool b
  | .int n => .int n
  | .float x => .float x
  | .str s => Datum.ofText s
  | .arr items => .list (itemsOfJson items)
  | .obj fields => .mapping (fieldsOfJson fields)

def itemsOfJson : List Value → List Datum
  | [] => []
  | item :: rest => Datum.ofJson item :: itemsOfJson rest

def fieldsOfJson : Fields → List (Datum × Datum)
  | [] => []
  | (key, value) :: rest => (Datum.ofText key, Datum.ofJson value) :: fieldsOfJson rest

end

namespace Datum

/-- The integer that a value is equal to as a key: truth values, integers and integral doubles of
one value are one key. -/
def keyInt? : Datum → Option Int
  | .bool b => some (if b then 1 else 0)
  | .int n => some n
  | .float x => if x.isIntegral then x.toInt? else none
  | _ => none

def isSameKey : Datum → Datum → Bool
  | .null, .null => true
  | .text a, .text b => a == b
  | .halved a, .halved b => a == b
  | .bytes a, .bytes b => a == b
  | .date a, .date b => a == b
  | .moment a, .moment b => a == b
  | a, b =>
    match a.keyInt?, b.keyInt? with
    | some m, some n => m == n
    | none, none =>
      match a, b with
      | .float x, .float y => x == y
      | _, _ => false
    | _, _ => false

end Datum

/-- The fields with one set: a key that is there keeps its place, a new one goes to the end. -/
def setField (key value : Datum) : List (Datum × Datum) → List (Datum × Datum)
  | [] => [(key, value)]
  | (k, v) :: rest =>
    if k.isSameKey key then (k, value) :: rest else (k, v) :: setField key value rest

end FlowCorpus.Schema
