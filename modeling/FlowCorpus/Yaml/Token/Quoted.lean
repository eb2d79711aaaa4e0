import FlowCorpus.Yaml.Token.Plain

/-!
# Quoted scalars

Scalars between single or double quotes. A single quote inside single quotes is written twice;
double quotes have escapes. Line ends and the spaces around them are folded.
-/

set_option autoImplicit false

namespace FlowCorpus.Yaml

open FlowCorpus.Text

def shortEscapes : List (Char × Char) :=
  [('0', '\x00'), ('a', '\x07'), ('b', '\x08'), ('t', '\t'), ('\t', '\t'), ('n', '\n'),
    ('v', '\x0b'), ('f', '\x0c'), ('r', '\r'), ('e', '\x1b'), (' ', ' '), ('"', '"'), ('\\', '\\'),
    ('/', '/'), ('N', '\x85'), ('_', '\xa0'), ('L', '\u2028'), ('P', '\u2029')]

def longEscapes : List (Char × Nat) :=
  [('x', 2), ('u', 4), ('U', 8)]

/-- What a quoted scalar holds so far: its characters, the last one first, and whether halves of
characters are among them. -/
structure QuotedText where
  reversed : List Char := []
  halved : Bool := false

def QuotedText.add (t : QuotedText) (chars : List Char) : QuotedText :=
  { t with reversed := chars.reverse ++ t.reversed }

def isHalf (code : Nat) : Bool :=
  0xd800 ≤ code && code < 0xe000

def QuotedText.addCode (t : QuotedText) (code : Nat) : Scan QuotedText :=
  if isHalf code then return { t.add ['\ufffd'] with halved := true }
  else if 0x110000 ≤ code then throw (.fault (.noSuchCharacter code))
  else return t.add [Char.ofNat code]

def hexValue (digits : List Char) : Nat :=
  digits.foldl (fun n c => 16 * n + (digitValue? c).getD 0) 0

/-- The line ends among the spaces, tabs and line ends at a place. No mark may end the document
among them. -/
def quotedBreaks (start : Place) : Nat → Scan (List Char)
  | 0 => return []
  | fuel + 1 => do
    if startsWithDocumentMark (← Scan.rest) then Scan.fail .quotedScalar start .documentMark
    Scan.skip isSpaceOrTab
    match ← Scan.lineBreak with
    | [] => return []
    | first => return first ++ (← quotedBreaks start fuel)

def quotedGap (start : Place) : Scan (List Char) := do
  let spaces ← Scan.run isSpaceOrTab
  match ← Scan.rest with
  | [] => Scan.fail .quotedScalar start .endOfSource
  | c :: rest =>
    if isBreak c then do
      Scan.advance 1
      return foldedBreaks (breakText c) (← quotedBreaks start (rest.length + 1))
    else return spaces

def longEscape (start : Place) (width : Nat) (t : QuotedText) : Scan QuotedText := do
  let digits := (← Scan.rest).take width
  if digits.length = width && digits.all isHexDigit then do
    Scan.advance width
    t.addCode (hexValue digits)
  else
    Scan.failExpected .escapedScalar start
      ("escape sequence of " ++ toString width ++ " hexadecimal numbers")
      (digits.dropWhile isHexDigit)

def escape (start : Place) (t : QuotedText) : Scan QuotedText := do
  match ← Scan.rest with
  | [] => Scan.fail .escapedScalar start (.unknownEscape (quoted "\x00"))
  | c :: rest =>
    match shortEscapes.lookup c, longEscapes.lookup c with
    | some d, _ => do
      Scan.advance 1
      return t.add [d]
    | none, some width => do
      Scan.advance 1
      longEscape start width t
    | none, none =>
      if isBreak c then do
        Scan.advance 1
        return t.add (← quotedBreaks start (rest.length + 1))
      else Scan.fail .escapedScalar start (.unknownEscape (quoted (String.singleton c)))

def quotedFrom (quote : Char) (start : Place) : Nat → QuotedText → Scan QuotedText
  | 0, t => return t
  | fuel + 1, t => do
    match ← Scan.rest with
    | [] => Scan.fail .quotedScalar start .endOfSource
    | c :: rest =>
      if c == quote then do
        if quote == '\'' && startsWith '\'' rest then
          Scan.advance 2
          quotedFrom quote start fuel (t.add ['\''])
        else
          Scan.advance 1
          return t
      else if c == '\\' && quote == '"' then do
        Scan.advance 1
        quotedFrom quote start fuel (← escape start t)
      else if isGap c then do
        quotedFrom quote start fuel (t.add (← quotedGap start))
      else do
        Scan.advance 1
        quotedFrom quote start fuel (t.add [c])

def readQuoted : Scan Token := do
  let start ← Scan.place
  let source ← Scan.rest
  Scan.advance 1
  let t ← quotedFrom (source.headD '"') start (source.length + 1) {}
  let form := if t.halved then ScalarForm.halved else .set
  return ⟨.scalar t.reversed.reverse form, start, ← Scan.place⟩

end FlowCorpus.Yaml
