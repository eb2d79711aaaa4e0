import FlowCorpus.Json.Basic
import FlowCorpus.Number.Notation
import FlowCorpus.Text.Digit
import FlowCorpus.Text.Quoted

/-!
# JSON text

Values written as ASCII text, with blanks after the separators or without; the canonical text, in
which the keys of every object are sorted; and the plain text of a value that messages and names
are made of.
-/

set_option autoImplicit false

namespace FlowCorpus.Json

open FlowCorpus.Number FlowCorpus.Text

/-- What stands between the items of a list and between a key and its value. -/
structure Separators where
  item : List Char
  key : List Char

def spaced : Separators := ⟨[',', ' '], [':', ' ']⟩

def compact : Separators := ⟨[','], [':']⟩

def unitEscape (n : Nat) : List Char :=
  '\\' :: 'u' :: hex 4 n

/-- One character of a text: a short escape where there is one, and the sixteen-bit units of a
character outside printable ASCII. -/
def writeChar (c : Char) : List Char :=
  if c = '"' then ['\\', '"']
  else if c = '\\' then ['\\', '\\']
  else if c = '\n' then ['\\', 'n']
  else if c = '\r' then ['\\', 'r']
  else if c = '\t' then ['\\', 't']
  else
    let n := c.toNat
    if n = 0x08 then ['\\', 'b']
    else if n = 0x0c then ['\\', 'f']
    else if 0x20 ≤ n && n < 0x7f then [c]
    else if n < 0x10000 then unitEscape n
    else
      unitEscape (0xd800 + (n - 0x10000) / 0x400) ++ unitEscape (0xdc00 + (n - 0x10000) % 0x400)

def writePoint : Point → List Char
  | .char c => writeChar c
  | p => unitEscape p.code

def writeText (s : LooseText) : List Char :=
  '"' :: (s.points.flatMap writePoint ++ ['"'])

mutual

def Value.write (separators : Separators) : Value → List Char
  | .null => "null".toList
  | .bool b => if b then "true".toList else "false".toList
  | .int n => (intText n).toList
  | .float x => (x.text ⟨"NaN", "Infinity"⟩).toList
  | .str s => writeText s
  | .arr items => '[' :: (writeItems separators items ++ [']'])
  | .obj fields => '{' :: (writeFields separators fields ++ ['}'])

def writeItems (separators : Separators) : List Value → List Char
  | [] => []
  | [v] => v.write separators
  | v :: rest => v.write separators ++ separators.item ++ writeItems separators rest

def writeFields (separators : Separators) : Fields → List Char
  | [] => []
  | [(k, v)] => writeText k ++ separators.key ++ v.write separators
  | (k, v) :: rest =>
    writeText k ++ separators.key ++ v.write separators ++ separators.item ++
      writeFields separators rest

end

/-- The text of a value with a blank after every separator, as files hold it. -/
def Value.render (v : Value) : String :=
  String.ofList (v.write spaced)

mutual

/-- The value with the keys of every object in the order of their code points. -/
def Value.sorted : Value → Value
  | .arr items => .arr (sortedItems items)
  | .obj fields => .obj ((sortedFields fields).mergeSort fun a b => a.1.le b.1)
  | v => v

def sortedItems : List Value → List Value
  | [] => []
  | v :: rest => v.sorted :: sortedItems rest

def sortedFields : Fields → Fields
  | [] => []
  | (k, v) :: rest => (k, v.sorted) :: sortedFields rest

end

def Value.canonical (v : Value) : String :=
  String.ofList (v.sorted.write compact)

def commaSeparated (texts : List String) : String :=
  ", ".intercalate texts

mutual

/-- A value as it is shown inside a list or an object: texts are quoted. -/
def Value.shown : Value → String
  | .null => "None"
  | .bool b => if b then "True" else "False"
  | .int n => intText n
  | .float x => x.plain
  | .str s => s.quoted
  | .arr items => "[" ++ commaSeparated (shownItems items) ++ "]"
  | .obj fields => "\x7b" ++ commaSeparated (shownFields fields) ++ "\x7d"

def shownItems : List Value → List String
  | [] => []
  | v :: rest => v.shown :: shownItems rest

def shownFields : Fields → List String
  | [] => []
  | (k, v) :: rest => (k.quoted ++ ": " ++ v.shown) :: shownFields rest

end

/-- The plain text of a value: a text is its own, without halves of surrogate pairs, and any other
value is as shown. -/
def Value.plain : Value → String
  | .str s => s.replaced
  | v => v.shown

end FlowCorpus.Json
