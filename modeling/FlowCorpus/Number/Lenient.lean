import FlowCorpus.Number.Numeral

/-!
# Lenient integers

Integers in texts that people write. A text that is a plain integer is read as it is; any other text
is first brought into a plain form: the white space around it, a plus sign, zeros in front, zeros
after a point and low lines between digits are left out.
-/

set_option autoImplicit false

namespace FlowCorpus.Number

open FlowCorpus.Text

/-- What comes of reading an integer: the integer, or why there is none. -/
inductive IntegerReading where
  | read (n : Int)
  | malformed
  | oversized
deriving DecidableEq, Repr

/-- A plain integer: an optional minus sign, and digits of which only a lone zero leads with zero.
More digits than the limit are too large whatever follows them. -/
def readPlainInteger (s : List Char) : IntegerReading :=
  let (negative, body) := match s with
    | '-' :: rest => (true, rest)
    | s => (false, s)
  let run := body.takeWhile isDigit
  match run with
  | [] => .malformed
  | '0' :: _ => if body = ['0'] then .read 0 else .malformed
  | run =>
    if digitLimit < run.length then .oversized
    else if run.length = body.length then .read (withSign negative (digitsValue run))
    else .malformed

def isSpacing (c : Char) : Bool :=
  isBlank c && !(0x1c ≤ c.toNat && c.toNat ≤ 0x1f)

/-- A zero or a low line. -/
def isFiller (c : Char) : Bool :=
  c == '0' || c == '_'

/-- A text that begins with a digit, without the zeros and low lines before its first other digit or
minus sign. One character of them stays before a point and at the end of the text. -/
def withoutLeadingZeros? : List Char → Option (List Char)
  | [] => none
  | c :: rest =>
    if c == '0' then
      let last := (rest.takeWhile isFiller).getLastD c
      match rest.dropWhile isFiller with
      | [] => some [last]
      | d :: more =>
        if isDigit d || d == '-' then some (d :: more)
        else if d == '.' then some (last :: d :: more)
        else none
    else if isDigit c then some (c :: rest)
    else none

/-- A text without the zeros after its point, if there are some and nothing else follows it. -/
def withoutZeroPlaces (s : List Char) : List Char :=
  match s.dropWhile (· != '.') with
  | _ :: place :: places =>
    if (place :: places).all (· == '0') then s.takeWhile (· != '.') else s
  | _ => s

/-- Whether every low line stands alone and between two other characters. `afterLine` says whether a
low line, or nothing, stands before the text. -/
def linesAreInner (afterLine : Bool) : List Char → Bool
  | [] => !afterLine
  | c :: rest =>
    if c == '_' then !afterLine && linesAreInner true rest else linesAreInner false rest

def withoutInnerLines (s : List Char) : List Char :=
  if linesAreInner true s then s.filter (· != '_') else s

def withoutPlus? : List Char → Option (List Char)
  | '+' :: '-' :: _ => none
  | '+' :: rest => some rest
  | s => some s

def plainForm? (s : List Char) : Option (List Char) := do
  let unsigned ← withoutPlus? (trimOf isSpacing s)
  let digits ← match unsigned with
    | '-' :: rest => (withoutLeadingZeros? rest).map ('-' :: ·)
    | s => withoutLeadingZeros? s
  return withoutInnerLines (withoutZeroPlaces digits)

def readInteger (s : List Char) : IntegerReading :=
  match readPlainInteger s with
  | .malformed =>
    match (plainForm? s).map readPlainInteger with
    | some (.read n) => .read n
    | _ => .malformed
  | reading => reading

end FlowCorpus.Number
