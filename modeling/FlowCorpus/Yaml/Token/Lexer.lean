import FlowCorpus.Yaml.Token.Block
import FlowCorpus.Yaml.Token.Property
import FlowCorpus.Yaml.Token.Quoted

/-!
# From source to tokens

A source is split into tokens one after the other. Columns open and close block collections. A token
may turn out to be a key only when its colon is found, on the same line and not too far behind it;
until then it is a candidate, and no token from it on is given away. So a problem that comes up
stands behind the tokens before the first candidate.
-/

set_option autoImplicit false

namespace FlowCorpus.Yaml

/-- A token that may be a key: the depth of flow collections around it, its number among the tokens,
whether it has to be a key, and its place. -/
structure Candidate where
  depth : Nat
  number : Nat
  needed : Bool
  place : Place
deriving Repr

/-- What is known while a source is split: where the splitting stands, the tokens so far, the depth
of flow collections, the columns of block collections from the innermost one, whether a key may
begin, and the candidates. -/
structure Lexer where
  cursor : Cursor
  tokens : Array Token := #[]
  depth : Nat := 0
  columns : List Nat := []
  keyAllowed : Bool := true
  candidates : List Candidate := []

abbrev Lex (α : Type) := StateT Lexer (Except Failure) α

def keyReach : Nat := 1024

namespace Lex

variable {α : Type}

def place : Lex Place :=
  return (← get).cursor.place

def fail (activity : Option (Activity × Option Place)) (cause : Cause) : Lex α := do
  throw (.problem (.located activity cause (← place)))

def scan (s : Scan α) : Lex α := do
  match StateT.run s (← get).cursor with
  | .ok (a, cursor) => do
    modify fun l => { l with cursor }
    return a
  | .error failure => throw failure

def push (t : Token) : Lex Unit :=
  modify fun l => { l with tokens := l.tokens.push t }

def mark (kind : TokenKind) : Lex Unit := do
  let p ← place
  push ⟨kind, p, p⟩

def take (kind : TokenKind) (count : Nat) : Lex Unit := do
  let start ← place
  scan (Scan.advance count)
  push ⟨kind, start, ← place⟩

def allowKey (keyAllowed : Bool) : Lex Unit :=
  modify fun l => { l with keyAllowed }

def inFlow : Lex Bool :=
  return (← get).depth != 0

def dropStale : Lex Unit := do
  let l ← get
  let p := l.cursor.place
  let (stale, fresh) := l.candidates.partition fun c =>
    c.place.line != p.line || c.place.index + keyReach < p.index
  match stale.find? Candidate.needed with
  | some c => fail (some (.simpleKey, some c.place)) .missingColon
  | none => set { l with candidates := fresh }

def dropCandidate : Lex Unit := do
  let l ← get
  match l.candidates.find? fun c => c.depth == l.depth with
  | none => return
  | some c =>
    if c.needed then fail (some (.simpleKey, some c.place)) .missingColon
    else set { l with candidates := l.candidates.filter fun c => c.depth != l.depth }

/-- Makes the next token a candidate, where a key may begin. It has to be a key when it begins a
line of the innermost block collection. -/
def addCandidate : Lex Unit := do
  if (← get).keyAllowed then
    dropCandidate
    modify fun l =>
      let p := l.cursor.place
      let needed := l.depth == 0 && l.columns.head? == some p.column
      { l with candidates := ⟨l.depth, l.tokens.size, needed, p⟩ :: l.candidates }

def endBlocks (column : Option Nat) : List Nat → Lex Unit
  | [] => modify fun l => { l with columns := [] }
  | innermost :: outer =>
    if column.all (· < innermost) then do
      mark .blockEnd
      endBlocks column outer
    else modify fun l => { l with columns := innermost :: outer }

/-- Ends the block collections that stand behind a column, or all of them. In flow collections
columns mean nothing. -/
def unwind (column : Option Nat) : Lex Unit := do
  if !(← inFlow) then endBlocks column (← get).columns

/-- Begins a block collection at a column, unless the innermost one has it. -/
def beginsBlock (column : Nat) : Lex Bool := do
  let l ← get
  if l.columns.head?.all (· < column) then do
    set { l with columns := column :: l.columns }
    return true
  else return false

/-- Goes to the next character of a token, past spaces, comments and line ends. -/
def skipGap : Nat → Lex Unit
  | 0 => return
  | fuel + 1 => do
    scan (Scan.skip (· == ' '))
    if startsWith '#' (← get).cursor.rest then scan (Scan.skip fun c => !isBreak c)
    match ← scan Scan.lineBreak with
    | [] => return
    | _ => do
      if !(← inFlow) then allowKey true
      skipGap fuel

/-- Goes to the next token. A mark for the order of bytes may stand in front of the source. -/
def toNextToken : Lex Unit := do
  let c := (← get).cursor
  if c.place.index = 0 && startsWith orderMark c.rest then scan (Scan.advance 1)
  skipGap (c.rest.length + 1)

def endCollections : Lex Unit := do
  unwind none
  dropCandidate
  allowKey false

def keyToken (s : Scan Token) : Lex Unit := do
  addCandidate
  allowKey false
  push (← scan s)

def flowStart (kind : TokenKind) : Lex Unit := do
  addCandidate
  modify fun l => { l with depth := l.depth + 1, keyAllowed := true }
  take kind 1

def flowEnd (kind : TokenKind) : Lex Unit := do
  dropCandidate
  modify fun l => { l with depth := l.depth - 1, keyAllowed := false }
  take kind 1

def separator : Lex Unit := do
  allowKey true
  dropCandidate
  take .separator 1

def blockStart (kind : TokenKind) (what : String) : Lex Unit := do
  if !(← inFlow) then
    if !(← get).keyAllowed then fail none (.notAllowedHere what)
    if ← beginsBlock (← place).column then mark kind

def item : Lex Unit := do
  blockStart .blockItemsStart "sequence entries"
  allowKey true
  dropCandidate
  take .item 1

def key : Lex Unit := do
  blockStart .blockFieldsStart "mapping keys"
  allowKey (!(← inFlow))
  dropCandidate
  take .key 1

def confirm (c : Candidate) : Lex Unit := do
  modify fun l =>
    { l with
      candidates := l.candidates.filter fun d => d.depth != c.depth
      tokens := l.tokens.insertIdxIfInBounds c.number ⟨.key, c.place, c.place⟩ }
  if !(← inFlow) then
    if ← beginsBlock c.place.column then
      modify fun l =>
        { l with
          tokens := l.tokens.insertIdxIfInBounds c.number ⟨.blockFieldsStart, c.place, c.place⟩ }
  allowKey false

def value : Lex Unit := do
  let l ← get
  match l.candidates.find? fun c => c.depth == l.depth with
  | some c => confirm c
  | none =>
    blockStart .blockFieldsStart "mapping values"
    allowKey (!(← inFlow))
    dropCandidate
  take .value 1

def blockScalar : Lex Unit := do
  allowKey true
  dropCandidate
  push (← scan (readBlockScalar (← get).columns.head?))

/-- A plain scalar. A key may begin behind it if a line ends there. -/
def plain : Lex Unit := do
  addCandidate
  let l ← get
  let indent := match l.columns with
    | [] => 0
    | column :: _ => column + 1
  let (scalar, cursor) := readPlain (l.depth != 0) indent l.cursor
  set { l with cursor, keyAllowed := scalar.crossed }
  push ⟨.scalar scalar.chars .plain, l.cursor.place, scalar.stop⟩

def endSource : Lex Unit := do
  endCollections
  modify fun l => { l with candidates := [] }
  mark .streamEnd

/-- One step: the next token with what it opens and closes. The answer tells whether the source goes
on behind it; it does not behind a bracket that closes nothing. -/
def step : Lex Bool := do
  toNextToken
  dropStale
  let p ← place
  unwind (some p.column)
  let l ← get
  let flow := l.depth != 0
  let goOn (act : Lex Unit) : Lex Bool := do
    act
    return true
  match l.cursor.rest with
  | [] => do
    endSource
    return false
  | c :: rest =>
    let source := c :: rest
    if c == '%' && p.column == 0 then goOn (do endCollections; push (← scan readDirective))
    else if p.column == 0 && startsWithMark '-' source then
      goOn (do endCollections; take .documentStart 3)
    else if p.column == 0 && startsWithMark '.' source then
      goOn (do endCollections; take .documentEnd 3)
    else if c == '[' then goOn (flowStart .flowItemsStart)
    else if c == '\x7b' then goOn (flowStart .flowFieldsStart)
    else if c == ']' then do flowEnd .flowItemsEnd; return flow
    else if c == '\x7d' then do flowEnd .flowFieldsEnd; return flow
    else if c == ',' then goOn separator
    else if c == '-' && atGap rest then goOn item
    else if c == '?' && (flow || atGap rest) then goOn key
    else if c == ':' && (flow || atGap rest) then goOn value
    else if c == '*' || c == '&' then goOn (keyToken readAnchor)
    else if c == '!' then goOn (keyToken readTag)
    else if (c == '|' || c == '>') && !flow then goOn blockScalar
    else if c == '\'' || c == '"' then goOn (keyToken readQuoted)
    else if plainBegins flow source then goOn plain
    else fail (some (.nextToken, none)) (.strayCharacter c)

end Lex

def Lexer.settled (l : Lexer) : Nat :=
  l.candidates.foldl (fun n c => min n c.number) l.tokens.size

/-- The tokens of a source, and what stops the reading behind the last of them. -/
structure Tokens where
  tokens : List Token
  failure : Failure

/-- Steps up to the end of a source or a failure. Of the tokens that were found by then the first
ones had been given away before the last step. -/
def Lexer.run : Nat → Nat → Lexer → Tokens
  | 0, _, l => ⟨l.tokens.toList, .fault .tooDeep⟩
  | fuel + 1, given, l =>
    match StateT.run Lex.dropStale l with
    | .error failure => ⟨(l.tokens.toList).take given, failure⟩
    | .ok (_, l) =>
      match StateT.run Lex.step l with
      | .error failure => ⟨(l.tokens.toList).take l.settled, failure⟩
      | .ok (goesOn, next) =>
        if goesOn then run fuel l.settled next
        else ⟨next.tokens.toList, .problem (.located none .endOfSource next.cursor.place)⟩

def Tokens.ofSource (source : List Char) : Tokens :=
  Lexer.run (source.length + 2) 0 { cursor := ⟨source, {}⟩ }

end FlowCorpus.Yaml
