import FlowCorpus.Json.Basic
import FlowCorpus.Number.Numeral

/-!
# Reading JSON

The reader takes one value and the blanks around it. Beyond the standard it knows `NaN`,
`Infinity` and `-Infinity`; a decimal too large for a double is infinite; of two fields with one
key the later value stands in the earlier place. An integer of more digits than the limit and
values nested too deeply are refused as such, before what follows them is looked at.
-/

set_option autoImplicit false

namespace FlowCorpus.Json

open FlowCorpus.Number FlowCorpus.Text

/-- Why a text is not read. -/
inductive ParseError where
  /-- The text is not JSON. -/
  | malformed
  /-- An integer has more digits than the limit. -/
  | integerTooLong (digits : Nat)
  /-- A list or an object is nested too deeply in others. -/
  | tooDeep (isObject : Bool)
deriving DecidableEq, Repr

abbrev Reader (α : Type) := Except ParseError (α × List Char)

def isJsonBlank (c : Char) : Bool :=
  c = ' ' || c = '\t' || c = '\n' || c = '\r'

def skipBlanks (s : List Char) : List Char :=
  s.dropWhile isJsonBlank

def escaped? (c : Char) : Option Nat :=
  if c = '"' || c = '\\' || c = '/' then some c.toNat
  else if c = 'b' then some 0x08
  else if c = 'f' then some 0x0c
  else if c = 'n' then some 0x0a
  else if c = 'r' then some 0x0d
  else if c = 't' then some 0x09
  else none

def hexValue? (c : Char) : Option Nat :=
  (digitValue? c).filter (· < 16)

def unit? (a b c d : Char) : Option Nat :=
  match hexValue? a, hexValue? b, hexValue? c, hexValue? d with
  | some a, some b, some c, some d => some (((a * 16 + b) * 16 + c) * 16 + d)
  | _, _, _, _ => none

/-- The code points of a text up to its closing quote, where escapes may give halves of a
surrogate pair. `units` holds those read, in reverse. -/
def textUnits (units : List Nat) : List Char → Reader (List Nat)
  | [] => .error .malformed
  | '\\' :: c :: rest =>
    if c = 'u' then
      match rest with
      | a :: b :: c :: d :: rest =>
        match unit? a b c d with
        | some n => textUnits (n :: units) rest
        | none => .error .malformed
      | _ => .error .malformed
    else
      match escaped? c with
      | some n => textUnits (n :: units) rest
      | none => .error .malformed
  | c :: rest =>
    if c = '"' then .ok (units.reverse, rest)
    else if c = '\\' || c.toNat < 0x20 then .error .malformed
    else textUnits (c.toNat :: units) rest

def readText (s : List Char) : Reader LooseText :=
  match textUnits [] s with
  | .ok (units, rest) => .ok (.ofPoints (units.map Point.ofUnit), rest)
  | .error e => .error e

def takeDigits (s : List Char) : List Char × List Char :=
  (s.takeWhile isDigit, s.dropWhile isDigit)

def fraction? : List Char → Option (List Char × List Char)
  | '.' :: rest =>
    match takeDigits rest with
    | ([], _) => none
    | taken => some taken
  | _ => none

def scale? : List Char → Option (Int × List Char)
  | c :: rest =>
    if c = 'e' || c = 'E' then
      let (negative, rest) := takeSign rest
      match takeDigits rest with
      | ([], _) => none
      | (digits, rest) => some (withSign negative (digitsValue digits), rest)
    else none
  | [] => none

def readNumber (negative : Bool) (s : List Char) : Reader Value :=
  match takeDigits s with
  | ([], _) => .error .malformed
  | ('0' :: _ :: _, _) => .ok (.int 0, s.drop 1)
  | (whole, rest) =>
    match fraction? rest, scale? rest with
    | none, none =>
      if digitLimit < whole.length then .error (.integerTooLong whole.length)
      else .ok (.int (withSign negative (digitsValue whole)), rest)
    | none, some (scale, rest) =>
      .ok (.float (Binary64.ofDecimal negative (digitsValue whole) scale), rest)
    | some (places, rest), _ =>
      let (scale, rest) := (scale? rest).getD (0, rest)
      .ok (.float (Binary64.ofDecimal negative (digitsValue (whole ++ places))
        (scale - places.length)), rest)

def wordValues : List (List Char × Value) :=
  [("null".toList, .null), ("true".toList, .bool true), ("false".toList, .bool false),
    ("NaN".toList, .float .nan), ("Infinity".toList, .float (.infinite false)),
    ("-Infinity".toList, .float (.infinite true))]

def readScalar (s : List Char) : Reader Value :=
  match wordValues.findSome? fun (word, value) =>
      (word.isPrefixOf? s).map fun rest => (value, rest) with
  | some taken => .ok taken
  | none =>
    match s with
    | '-' :: rest => readNumber true rest
    | s => readNumber false s

def openLimit : Nat := 985

mutual

/-- One value at the start of a text, in which so many more lists and objects may be open at once.
The fuel bounds the depth of the calls. -/
def readValue : Nat → Nat → List Char → Reader Value
  | 0, _, _ => .error .malformed
  | fuel + 1, room, s =>
    match s with
    | '"' :: rest =>
      match readText rest with
      | .ok (text, rest) => .ok (.str text, rest)
      | .error e => .error e
    | '[' :: rest =>
      if room = 0 then .error (.tooDeep false)
      else
        match skipBlanks rest with
        | ']' :: rest => .ok (.arr [], rest)
        | rest => readItems fuel (room - 1) [] rest
    | '{' :: rest =>
      if room = 0 then .error (.tooDeep true)
      else
        match skipBlanks rest with
        | '}' :: rest => .ok (.obj [], rest)
        | rest => readMembers fuel (room - 1) [] rest
    | s => readScalar s

/-- The items of a list up to its closing bracket, after those read, which are in reverse. -/
def readItems : Nat → Nat → List Value → List Char → Reader Value
  | 0, _, _, _ => .error .malformed
  | fuel + 1, room, items, s =>
    match readValue fuel room s with
    | .error e => .error e
    | .ok (value, rest) =>
      match skipBlanks rest with
      | ',' :: rest => readItems fuel room (value :: items) (skipBlanks rest)
      | ']' :: rest => .ok (.arr (value :: items).reverse, rest)
      | _ => .error .malformed

/-- The members of an object up to its closing brace, set over those read. -/
def readMembers : Nat → Nat → Fields → List Char → Reader Value
  | 0, _, _, _ => .error .malformed
  | fuel + 1, room, fields, s =>
    match s with
    | '"' :: rest =>
      match readText rest with
      | .error e => .error e
      | .ok (key, rest) =>
        match skipBlanks rest with
        | ':' :: rest =>
          match readValue fuel room (skipBlanks rest) with
          | .error e => .error e
          | .ok (value, rest) =>
            match skipBlanks rest with
            | ',' :: rest => readMembers fuel room (fields.set key value) (skipBlanks rest)
            | '}' :: rest => .ok (.obj (fields.set key value), rest)
            | _ => .error .malformed
        | _ => .error .malformed
    | _ => .error .malformed

end

def fuelFor (s : List Char) : Nat :=
  2 * s.length + 2

def parseChars (s : List Char) : Except ParseError Value :=
  match readValue (fuelFor s) openLimit (skipBlanks s) with
  | .error e => .error e
  | .ok (value, rest) => if (skipBlanks rest).isEmpty then .ok value else .error .malformed

def parse (s : String) : Except ParseError Value :=
  parseChars s.toList

end FlowCorpus.Json
