import FlowCorpus.Number.Lenient
import FlowCorpus.Schema.Datum

/-!
# Typed fields

Lenient reading of a mapping into typed fields. All fields are read, and every field that does not
fit is reported, not only the first one.
-/

set_option autoImplicit false

namespace FlowCorpus.Schema

open FlowCorpus.Number FlowCorpus.Text

/-- A value that was read, or everything that is wrong with it. -/
inductive Checked (α : Type) where
  | valid (value : α)
  | invalid (issues : List Issue)

namespace Checked

variable {α β : Type}

def map (f : α → β) : Checked α → Checked β
  | .valid value => .valid (f value)
  | .invalid issues => .invalid issues

def seq (f : Checked (α → β)) (a : Unit → Checked α) : Checked β :=
  match f, a () with
  | .valid f, .valid a => .valid (f a)
  | .valid _, .invalid issues => .invalid issues
  | .invalid issues, .valid _ => .invalid issues
  | .invalid first, .invalid second => .invalid (first ++ second)

instance : Applicative Checked where
  pure := .valid
  map := map
  seq := seq

def under (key : String) : Checked α → Checked α
  | .valid value => .valid value
  | .invalid issues => .invalid (issues.map fun i => { i with location := key :: i.location })

end Checked

/-- A reader of one typed value, which says why a value does not fit. -/
abbrev Coercion (α : Type) := Datum → Except Misfit α

def wordLimit : Int := 9223372036854775808

def fitsWord (n : Int) : Bool :=
  -wordLimit < n && n < wordLimit

def decodedBytes? (bs : List UInt8) : Option String :=
  String.fromUTF8? ⟨bs.toArray⟩

def integerText (s : String) : Except Misfit Int :=
  match readInteger s.toList with
  | .read n => .ok n
  | .malformed => .error .integerText
  | .oversized => .error .integerSize

/-- An integer, also given as true or false, as a double without a fraction, or as text. -/
def integer : Coercion Int
  | .int n => .ok n
  | .bool b => .ok (if b then 1 else 0)
  | .float x =>
    match x.toInt? with
    | none => .error .notFinite
    | some n =>
      if !x.isIntegral then .error .fraction
      else if fitsWord n then .ok n
      else .error .integerSize
  | .text s => integerText s
  | .halved _ => .error .notUnicode
  | .bytes bs => ((decodedBytes? bs).map integerText).getD (.error .integerText)
  | _ => .error .notAnInteger

def integerFrom (least : Int) : Coercion Int := fun d => do
  let n ← integer d
  if least ≤ n then .ok n else .error (.tooSmall least)

def optional {α : Type} (coerce : Coercion α) : Coercion (Option α)
  | .null => .ok none
  | d => some <$> coerce d

def trueWords : List String := ["1", "on", "t", "true", "y", "yes"]

def falseWords : List String := ["0", "off", "f", "false", "n", "no"]

def booleanText (s : String) : Except Misfit Bool :=
  let word := String.ofList (s.toList.map lowerAscii)
  if trueWords.contains word then .ok true
  else if falseWords.contains word then .ok false
  else .error .booleanWord

/-- One as true and zero as false. -/
def binary (n : Int) : Except Misfit Bool :=
  if n = 1 then .ok true else if n = 0 then .ok false else .error .booleanWord

/-- True or false, also given as one and zero or as a word. -/
def boolean : Coercion Bool
  | .bool b => .ok b
  | .int n => if fitsWord n || n == -wordLimit then binary n else .error .notBoolean
  | .float x =>
    match x.toInt? with
    | some n => if x.isIntegral && fitsWord n then binary n else .error .notBoolean
    | none => .error .notBoolean
  | .text s => booleanText s
  | .halved _ => .error .notUnicode
  | .bytes bs => ((decodedBytes? bs).map booleanText).getD (.error .booleanWord)
  | _ => .error .notBoolean

def text : Coercion String
  | .text s => .ok s
  | .halved _ => .error .notUnicode
  | .bytes bs => ((decodedBytes? bs).map .ok).getD (.error .notUnicode)
  | _ => .error .notText

def oneOf (choices : List String) : Coercion String
  | .text s => if choices.contains s then .ok s else .error (.notAChoice choices)
  | .halved _ => .error .notUnicode
  | _ => .error (.notAChoice choices)

abbrev Entries := List (Datum × Datum)

def Entries.get? (entries : Entries) (key : String) : Option Datum :=
  (entries.find? fun entry => entry.1.isSameKey (.text key)).map Prod.snd

/-- The fields of a mapping, or the one issue that a value is none; the model is named then. -/
def checkEntries {α : Type} (model : String) (read : Entries → Checked α) : Datum → Checked α
  | .mapping entries => read entries
  | d => .invalid [⟨[], .notAnObject model, d.exhibit⟩]

def checkField {α : Type} (coerce : Coercion α) (key : String) (d : Datum) : Checked α :=
  match coerce d with
  | .ok a => .valid a
  | .error misfit => .invalid [⟨[key], misfit, d.exhibit⟩]

/-- A field that has to be there. -/
def required {α : Type} (coerce : Coercion α) (key : String) (entries : Entries) : Checked α :=
  match entries.get? key with
  | some d => checkField coerce key d
  | none => .invalid [⟨[key], .missing, (Datum.mapping entries).exhibit⟩]

def defaulted {α : Type} (default : α) (coerce : Coercion α) (key : String) (entries : Entries) :
    Checked α :=
  match entries.get? key with
  | some d => checkField coerce key d
  | none => .valid default

def nested {α : Type} (default : α) (model : String) (read : Entries → Checked α) (key : String)
    (entries : Entries) : Checked α :=
  match entries.get? key with
  | some d => (checkEntries model read d).under key
  | none => .valid default

end FlowCorpus.Schema
