import FlowCorpus.Text.Base64
import FlowCorpus.Text.Case
import FlowCorpus.Yaml.Problem
import FlowCorpus.Yaml.Tag

/-!
# Scalars

The values of scalars by their tags. The characters of a scalar whose tag was given need not have
the form that the tag asks for, and then there is no value.
-/

set_option autoImplicit false

namespace FlowCorpus.Yaml

open FlowCorpus.Number FlowCorpus.Schema FlowCorpus.Text

def withoutLines (s : List Char) : List Char :=
  s.filter (· != '_')

/-- A text without its sign, and whether that was a minus sign. A text of nothing has no first
character to look at. -/
def signedBody (s : List Char) : Except Fault (Bool × List Char) :=
  if s.isEmpty then .error .outOfRange else .ok (takeSign s)

/-- A text without the mark of a base in front, if it has the one of this base. -/
def withoutBaseMark (base : Nat) : List Char → List Char
  | '0' :: c :: rest => if baseOf? c = some base then rest else '0' :: c :: rest
  | s => s

def integerInBase (base : Nat) (s : List Char) : Except Fault Int :=
  let (negative, body) := takeSign (numeralBody s)
  match digits? base (withoutBaseMark base body) with
  | some (n, _) => .ok (withSign negative n)
  | none => .error (.notANumber (String.ofList s))

def integerInTen (s : List Char) : Except Fault Int :=
  match readInt? s with
  | some n => .ok n
  | none => .error (.notANumber (String.ofList s))

def unsignedInteger : List Char → Except Fault Int
  | [] => .error .outOfRange
  | ['0'] => .ok 0
  | '0' :: 'b' :: digits => integerInBase 2 digits
  | '0' :: 'x' :: digits => integerInBase 16 digits
  | '0' :: digits => integerInBase 8 ('0' :: digits)
  | s => do
    let parts ← (split ':' s).mapM integerInTen
    return parts.foldl (fun n part => 60 * n + part) 0

def integerValue (s : List Char) : Except Fault Int := do
  let (negative, body) ← signedBody (withoutLines s)
  let n ← unsignedInteger body
  return if negative then -n else n

def doubleInTen (s : List Char) : Except Fault Binary64 :=
  match readDouble? s with
  | some x => .ok x
  | none => .error (.notANumber (String.ofList s))

/-- The parts of a double in base sixty, the last one first, added up from a power of sixty on. -/
def addSixties (total : Binary64) (power : Nat) : List Binary64 → Except Fault Binary64
  | [] => .ok total
  | part :: parts =>
    match Binary64.ofNat power with
    | .infinite _ => .error .integerTooLarge
    | scale => addSixties (total.add (part.mul scale)) (60 * power) parts

def unsignedDouble (s : List Char) : Except Fault Binary64 :=
  if infinityWords.contains (String.ofList s) then .ok (.infinite false)
  else if nanWords.contains (String.ofList s) then .ok .nan
  else if s.contains ':' then do
    let parts ← (split ':' s).mapM doubleInTen
    addSixties (Binary64.ofNat 0) 1 parts.reverse
  else doubleInTen s

def doubleValue (s : List Char) : Except Fault Binary64 := do
  let (negative, body) ← signedBody ((withoutLines s).map lower)
  let x ← unsignedDouble body
  return if negative then x.mul (Binary64.ofInt (-1)) else x

def truthValues : List (String × Bool) :=
  [("yes", true), ("no", false), ("true", true), ("false", false), ("on", true), ("off", false)]

def truthValue (s : List Char) : Except Fault Bool :=
  let word := String.ofList (s.map lower)
  match truthValues.lookup word with
  | some b => .ok b
  | none => .error (.missingKey word)

/-- A timestamp. A line end behind it does not count. -/
def timestampValue (s : List Char) : Except Fault Datum :=
  match timestampText? (withoutLastBreak s) with
  | none => .error .noFields
  | some t =>
    match t.datum? with
    | some d => .ok d
    | none => .error .noSuchMoment

def binaryValue (s : List Char) : Except Cause (List UInt8) :=
  if !s.all fun c => c.toNat < 0x80 then .error .notAscii
  else
    match base64Bytes? s with
    | some bytes => .ok bytes
    | none => .error .notBase64

structure ScalarText where
  chars : List Char
  halved : Bool := false
deriving Repr

def ScalarText.text (t : ScalarText) : Datum :=
  let s := String.ofList t.chars
  if t.halved then .halved s else .text s

def orFault {α : Type} : Except Fault α → Except Failure α
  | .ok a => .ok a
  | .error fault => .error (.fault fault)

def scalarValue (p : Place) (t : ScalarText) : Tag → Except Failure Datum
  | .null => .ok .null
  | .bool => .bool <$> orFault (truthValue t.chars)
  | .int => .int <$> orFault (integerValue t.chars)
  | .float => .float <$> orFault (doubleValue t.chars)
  | .timestamp => orFault (timestampValue t.chars)
  | .binary =>
    match binaryValue t.chars with
    | .ok bytes => .ok (.bytes bytes)
    | .error cause => .error (.problem (.located none cause p))
  | _ => .ok t.text

end FlowCorpus.Yaml
