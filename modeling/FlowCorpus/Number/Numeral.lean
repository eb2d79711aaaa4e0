import FlowCorpus.Number.Binary64
import FlowCorpus.Text.Blank
import FlowCorpus.Text.Digit

/-!
# Numerals

Integers and doubles read from text. A numeral may stand between blanks, may be written with the
digits of any script, and may hold single low lines between its digits.
-/

set_option autoImplicit false

namespace FlowCorpus.Number

open FlowCorpus.Text

def digitLimit : Nat := 4300

/-- One character of a numeral in ASCII: beyond ASCII a blank becomes a space, a decimal digit its
ASCII form, and any other character one that no numeral holds. -/
def asciiForm (c : Char) : Char :=
  if c.toNat < 128 then c
  else if isBlank c then ' '
  else
    match decimalDigit? c with
    | some d => hexDigit d
    | none => '?'

def numeralBody (s : List Char) : List Char :=
  trimOf isAsciiBlank (s.map asciiForm)

/-- The sign in front, negative or not, and what follows it. -/
def takeSign : List Char → Bool × List Char
  | '-' :: rest => (true, rest)
  | '+' :: rest => (false, rest)
  | s => (false, s)

/-- Digits in a base with single low lines between them: their value and number. `afterDigit` says
whether the last character read was a digit. -/
def digitsFrom (base : Nat) (value count : Nat) (afterDigit : Bool) : List Char → Option (Nat × Nat)
  | [] => if afterDigit then some (value, count) else none
  | c :: rest =>
    if c = '_' then
      if afterDigit then digitsFrom base value count false rest else none
    else
      match digitValue? c with
      | some d =>
        if d < base then digitsFrom base (value * base + d) (count + 1) true rest else none
      | none => none

/-- A whole text of digits in a base with single low lines between them. -/
def digits? (base : Nat) (s : List Char) : Option (Nat × Nat) :=
  digitsFrom base 0 0 false s

def decimal? (s : List Char) : Option Nat :=
  match digits? 10 s with
  | some (value, count) => if count ≤ digitLimit then some value else none
  | none => none

def withSign (negative : Bool) (n : Nat) : Int :=
  if negative then -(n : Int) else n

def readInt? (s : List Char) : Option Int :=
  let (negative, body) := takeSign (numeralBody s)
  (decimal? body).map (withSign negative)

/-- The base that a letter after a zero stands for. -/
def baseOf? : Char → Option Nat
  | 'x' => some 16
  | 'X' => some 16
  | 'o' => some 8
  | 'O' => some 8
  | 'b' => some 2
  | 'B' => some 2
  | _ => none

def skipLowLine : List Char → List Char
  | '_' :: rest => rest
  | s => s

/-- A natural number whose base is written in front of it; in base ten no zero leads but that of
zero itself. -/
def basedNat? : List Char → Option Nat
  | '0' :: c :: rest =>
    match baseOf? c with
    | some base => (digits? base (skipLowLine rest)).map Prod.fst
    | none => (decimal? ('0' :: c :: rest)).filter (· == 0)
  | s => decimal? s

/-- An integer whose base is written in front of it, sixteen, eight, two or, without a mark, ten. -/
def readBasedInt? (s : List Char) : Option Int :=
  let (negative, body) := takeSign (numeralBody s)
  (basedNat? body).map (withSign negative)

/-- Digits with single low lines between them at the start of a text: the digits, the rest, and
whether every low line stood between two digits. -/
def digitRun : List Char → List Char × List Char
  | [] => ([], [])
  | c :: '_' :: d :: rest =>
    if isDigit c && isDigit d then
      let (run, remaining) := digitRun (d :: rest)
      (c :: run, remaining)
    else if isDigit c then ([c], '_' :: d :: rest)
    else ([], c :: '_' :: d :: rest)
  | c :: rest =>
    if isDigit c then
      let (run, remaining) := digitRun rest
      (c :: run, remaining)
    else ([], c :: rest)

def digitsValue (s : List Char) : Nat :=
  s.foldl (fun value c => value * 10 + (digitValue? c).getD 0) 0

def exponent? : List Char → Option Int
  | [] => some 0
  | c :: rest =>
    if c = 'e' || c = 'E' then
      let (negative, body) := takeSign rest
      match digitRun body with
      | ([], _) => none
      | (run, []) => some (withSign negative (digitsValue run))
      | _ => none
    else none

/-- A decimal without its sign: digits, optionally a point and digits, optionally an exponent, with
a digit before the exponent. -/
def unsignedDouble? (negative : Bool) (s : List Char) : Option Binary64 :=
  let (whole, rest) := digitRun s
  let (fraction, rest) := match rest with
    | '.' :: rest => digitRun rest
    | rest => ([], rest)
  if whole.isEmpty && fraction.isEmpty then none
  else
    (exponent? rest).map fun exponent =>
      Binary64.ofDecimal negative (digitsValue (whole ++ fraction)) (exponent - fraction.length)

def lowerAscii (c : Char) : Char :=
  if 0x41 ≤ c.toNat && c.toNat ≤ 0x5a then Char.ofNat (c.toNat + 0x20) else c

def special? (negative : Bool) (s : List Char) : Option Binary64 :=
  let name := String.ofList (s.map lowerAscii)
  if name = "inf" || name = "infinity" then some (.infinite negative)
  else if name = "nan" then some .nan
  else none

/-- A double: a decimal, an infinity or not a number, with an optional sign. -/
def readDouble? (s : List Char) : Option Binary64 :=
  let (negative, body) := takeSign (numeralBody s)
  (special? negative body).or (unsignedDouble? negative body)

end FlowCorpus.Number
