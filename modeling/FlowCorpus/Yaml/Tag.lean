import FlowCorpus.Yaml.Timestamp

/-!
# Tags

What a node is. A tag says so; without one, the characters of a plain scalar do.
-/

set_option autoImplicit false

namespace FlowCorpus.Yaml

open FlowCorpus.Number FlowCorpus.Text

/-- What a node is. A merge is a key whose fields are merged into its mapping, and a value a key for
the value of a mapping that stands for a scalar. -/
inductive Tag where
  | null
  | bool
  | int
  | float
  | text
  | binary
  | timestamp
  | items
  | fields
  | orderedMap
  | pairs
  | set
  | merge
  | value
  | other (name : String)
deriving DecidableEq, Repr, Inhabited

def commonTags : String := "tag:yaml.org,2002:"

namespace Tag

def common : List (String × Tag) :=
  [("null", .null), ("bool", .bool), ("int", .int), ("float", .float), ("str", .text),
    ("binary", .binary), ("timestamp", .timestamp), ("seq", .items), ("map", .fields),
    ("omap", .orderedMap), ("pairs", .pairs), ("set", .set), ("merge", .merge), ("value", .value)]

def ofName (name : String) : Tag :=
  ((common.find? fun t => commonTags ++ t.1 == name).map Prod.snd).getD (.other name)

def name : Tag → String
  | .other name => name
  | tag => commonTags ++ ((common.find? fun t => t.2 == tag).map Prod.fst).getD ""

end Tag

def nullWords : List String := ["~", "null", "Null", "NULL"]

def truthWords : List String :=
  ["yes", "Yes", "YES", "no", "No", "NO", "true", "True", "TRUE", "false", "False", "FALSE", "on",
    "On", "ON", "off", "Off", "OFF"]

def isDigitOrLine (base : Nat) (c : Char) : Bool :=
  c == '_' || (digitValue? c).any (· < base)

def isSixtieth : List Char → Bool
  | [c] => isDigit c
  | [c, d] => isDigit c && c.toNat < '6'.toNat && isDigit d
  | _ => false

/-- Whether a text is a run of digits and low lines that begins with one of some digits. -/
def isRun (first : Char → Bool) (s : List Char) : Bool :=
  s.head?.any first && s.all (isDigitOrLine 10)

/-- Whether a text is a number in base sixty: a run, and parts after colons. -/
def isSixties (first : Char → Bool) (s : List Char) : Bool :=
  match split ':' s with
  | whole :: part :: parts => isRun first whole && (part :: parts).all isSixtieth
  | _ => false

/-- Whether a text that is not empty has only digits of a base and low lines. -/
def isDigits (base : Nat) (s : List Char) : Bool :=
  !s.isEmpty && s.all (isDigitOrLine base)

/-- A digit other than zero. -/
def isLeadingDigit (c : Char) : Bool :=
  isDigit c && c != '0'

/-- Whether a text has the form of an integer, in base two, eight, ten, sixteen or sixty. -/
def isIntegerForm (s : List Char) : Bool :=
  match (takeSign s).2 with
  | ['0'] => true
  | '0' :: 'b' :: digits => isDigits 2 digits
  | '0' :: 'x' :: digits => isDigits 16 digits
  | '0' :: digits => isDigits 8 digits
  | s => isRun isLeadingDigit s || isSixties isLeadingDigit s

/-- Whether a text is an exponent with its sign, or nothing. -/
def isExponent : List Char → Bool
  | [] => true
  | mark :: sign :: digits =>
    (mark == 'e' || mark == 'E') && (sign == '+' || sign == '-') && !digits.isEmpty &&
      digits.all isDigit
  | _ => false

/-- Whether a text has the form of a number with a point. Without digits before the point there is
no sign, and there is no exponent in base sixty. -/
def isPointedForm (s : List Char) : Bool :=
  let (_, unsigned) := takeSign s
  let whole := unsigned.takeWhile (· != '.')
  match unsigned.drop whole.length with
  | [] => false
  | _ :: places =>
    let digits := places.takeWhile (isDigitOrLine 10)
    let behind := places.drop digits.length
    if whole.isEmpty then
      s.length == unsigned.length && digits.head?.any isDigit && isExponent behind
    else (isRun isDigit whole && isExponent behind) || (isSixties isDigit whole && behind.isEmpty)

def infinityWords : List String := [".inf", ".Inf", ".INF"]

def nanWords : List String := [".nan", ".NaN", ".NAN"]

def isDoubleForm (s : List Char) : Bool :=
  isPointedForm s || infinityWords.contains (String.ofList (takeSign s).2) ||
    nanWords.contains (String.ofList s)

/-- Whether a text has the form of a timestamp. A day alone is written with all its digits. -/
def isTimestampForm (s : List Char) : Bool :=
  (timestampText? s).any fun t => t.isFull || t.clock.isSome

def withoutLastBreak (s : List Char) : List Char :=
  if s.getLast? = some '\n' then s.dropLast else s

/-- The tag that the characters of a scalar stand for. A line end behind them does not count. -/
def Tag.ofChars (s : List Char) : Tag :=
  if s.isEmpty then .null
  else
    let s := withoutLastBreak s
    let word := String.ofList s
    if truthWords.contains word then .bool
    else if isDoubleForm s then .float
    else if isIntegerForm s then .int
    else if word == "<<" then .merge
    else if nullWords.contains word then .null
    else if isTimestampForm s then .timestamp
    else if word == "=" then .value
    else .text

end FlowCorpus.Yaml
