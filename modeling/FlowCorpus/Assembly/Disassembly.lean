import FlowCorpus.Assembly.Literal
import FlowCorpus.Assembly.Register
import FlowCorpus.Text.Blank
import FlowCorpus.Text.Split

/-!
# Normalized disassembly

One line of disassembly in canonical form: operands are separated by blanks, literals and names
become the words `IMM`, `MEM`, `STR`, `FUNC` and `DATA`, and on request registers become masks of
their width. The rules act one after the other on the whole line.
-/

set_option autoImplicit false

namespace FlowCorpus.Assembly

open FlowCorpus.Text

def lineRun (s : List Char) : List Char :=
  s.takeWhile (· != '\n')

def solidRun (s : List Char) : List Char :=
  s.takeWhile fun c => !isBlank c

def dropEnd (drop : Char → Bool) (s : List Char) : List Char :=
  (s.reverse.dropWhile drop).reverse

/-- A rule that takes a word and what `extent` says of the text after it, when that is not
empty. -/
def wordRule (word : String) (extent : List Char → List Char) (replacement : String) : Rule :=
  fun s =>
    match word.toList.isPrefixOf? s with
    | some rest =>
      let taken := extent rest
      if taken.isEmpty then none
      else some (word.length + taken.length, replacement.toList)
    | none => none

def highImmediateRule : Rule := fun s =>
  (highDigits? s).map fun n => (highMark.length + n, "IMM".toList)

/-- The length of the parts of one digit each, every one after any character of the line, that
follow an address. -/
def placeRun : List Char → Nat
  | c :: d :: rest => if c != '\n' && isDigit d then placeRun rest + 2 else 0
  | _ => 0

/-- The length of an address literal of three digits or more with its parts. -/
def addressLength? (s : List Char) : Option Nat :=
  match "0x".toList.isPrefixOf? s with
  | some rest =>
    let n := hexRun rest
    if 3 ≤ n then some (2 + n + placeRun (rest.drop n)) else none
  | none => none

def addressMarks : List (List Char) :=
  ["case.".toList, "0x".toList, "aav.".toList]

def addressRule : Rule := fun s =>
  let marked := addressMarks.findSome? fun mark =>
    match mark.isPrefixOf? s with
    | some rest => (addressLength? rest).map (mark.length + ·)
    | none => none
  (marked.or (addressLength? s)).map fun n => (n, "MEM".toList)

/-- The name of a string, up to the last character before a blank that is no exclamation mark. -/
def stringRule : Rule :=
  wordRule "str" (fun s => dropEnd (· == '!') (solidRun s)) "STR"

/-- A method takes the rest of its line, provided that something other than blanks and exclamation
marks is in it. -/
def methodRule : Rule :=
  wordRule "method"
    (fun s =>
      let line := lineRun s
      if line.any fun c => c != '!' && !isBlank c then line else [])
    "FUNC"

/-- The rest of a line without the blanks and exclamation marks at its end. -/
def solidLine (s : List Char) : List Char :=
  dropEnd (fun c => c == '!' || isBlank c) (lineRun s)

def functionRule : Rule := fun s =>
  (wordRule "fcn" solidLine "FUNC" s).or (wordRule "sym" solidLine "FUNC" s)

def objectMarks : List (List Char) :=
  ["-[obj".toList, "-obj".toList, "[obj".toList, "obj".toList]

def objectRule : Rule := fun s =>
  objectMarks.findSome? fun mark =>
    (mark.isPrefixOf? s).map fun rest =>
      (mark.length + (solidRun rest).length, "DATA".toList)

def relocationRule : Rule :=
  wordRule "[reloc" (fun s => dropEnd (· != ']') (solidRun s)) "FUNC"

def isLower (c : Char) : Bool :=
  0x61 ≤ c.toNat && c.toNat ≤ 0x7a

def isLowerOrLowLine (c : Char) : Bool :=
  isLower c || c == '_'

/-- The length of a local name after its mark: letters, one character of the line, and letters or
low lines. The middle character is the one after the letters if letters or low lines follow it,
and otherwise one of the last letters, so that the name needs two or three of them. -/
def localNameLength? (s : List Char) : Option Nat :=
  let n := (s.takeWhile isLower).length
  let rest := s.drop n
  let beyond := match rest with
    | c :: rest => if c != '\n' then (rest.takeWhile isLowerOrLowLine).length else 0
    | [] => 0
  let tail := (rest.takeWhile isLowerOrLowLine).length
  if 1 ≤ n && 1 ≤ beyond then some (n + 1 + beyond)
  else if 3 ≤ n || (2 ≤ n && 1 ≤ tail) then some (n + tail)
  else none

def localRule : Rule := fun s =>
  match "loc".toList.isPrefixOf? s with
  | some (c :: rest) =>
    if c != '\n' then (localNameLength? rest).map fun n => (4 + n, "FUNC".toList) else none
  | _ => none

def nopRule : Rule := fun s =>
  ("nop".toList.isPrefixOf? s).map fun rest => (3 + (lineRun rest).length, "nop".toList)

def disassemblyRules : List Rule :=
  [highImmediateRule, closedLiteral 1 (some 3) ']' "IMM", closedLiteral 1 (some 4) '(' "IMM",
    addressRule, stringRule, methodRule, functionRule, objectRule, relocationRule, localRule,
    nopRule]

def mergeSpacePairs : List Char → List Char
  | ' ' :: ' ' :: rest => ' ' :: mergeSpacePairs rest
  | c :: rest => c :: mergeSpacePairs rest
  | [] => []

def spaceOperands (s : List Char) : List Char :=
  mergeSpacePairs (s.map fun c => if c = ',' then ' ' else c)

def bracketed (rest : List Char) : List Char × Bool :=
  match rest.reverse with
  | ']' :: inner => (inner.reverse, true)
  | _ => (rest, false)

/-- A factor of a scaled index: only registers of sixty-four bits are masked. -/
def maskFactor (factor : List Char) : List Char :=
  if registers64.contains (String.ofList factor) then "reg64".toList else factor

/-- One token with its register masked: a frame pointer, a register, a register in a bracket, or
the factors of a product. -/
def maskToken (token : List Char) : List Char :=
  if framePointers.contains (String.ofList token) then "fp".toList
  else
    match registerMask? (String.ofList token) with
    | some mask => mask.toList
    | none =>
      match token with
      | '[' :: rest =>
        let (inner, closed) := bracketed rest
        match registerMask? (String.ofList inner) with
        | some mask => '[' :: mask.toList ++ (if closed then [']'] else [])
        | none => token
      | _ =>
        if token.contains '*' then join ['*'] ((split '*' token).map maskFactor) else token

/-- The tokens of a line: what stands between single spaces, unless empty. -/
def tokens (separator : Char) (s : List Char) : List (List Char) :=
  (split separator s).filter fun token => !token.isEmpty

def normalizeOperands (s : List Char) : List Char :=
  substituteAll disassemblyRules (spaceOperands s)

def normalizeDisassembly (text : String) (maskRegisters : Bool) : String :=
  let line := normalizeOperands text.toList
  String.ofList (if maskRegisters then join [' '] ((tokens ' ' line).map maskToken) else line)

end FlowCorpus.Assembly
