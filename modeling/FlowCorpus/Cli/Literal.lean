import FlowCorpus.Cli.Literal.Token

/-!
# Written values

Whether a text is a value that is written out: numbers, quoted texts, the words for true, false and
nothing, and tuples, sets and mappings of these. There are no lists: a tag holds no square bracket.
Of the value itself only its kind is kept: a sign needs a number, a sum a real and an imaginary one,
and what is in a set or is a key may neither be nor hold a set or a mapping.
-/

set_option autoImplicit false

namespace FlowCorpus.Cli

/-- What kind of value is written. -/
inductive LiteralKind where
  /-- A number, real or imaginary. -/
  | number (isImaginary : Bool)
  /-- A number with a sign. -/
  | signed (isImaginary : Bool)
  /-- The name of the empty set, which is no value. -/
  | setName
  /-- Any other value, and whether it may be in a set. -/
  | value (isFixed : Bool)
deriving DecidableEq, Repr

namespace LiteralKind

def isFixed? : LiteralKind → Option Bool
  | .number _ | .signed _ => some true
  | .setName => none
  | .value isFixed => some isFixed

def isReal : LiteralKind → Bool
  | .number isImaginary | .signed isImaginary => !isImaginary
  | _ => false

def withSign? : LiteralKind → Option LiteralKind
  | .number isImaginary => some (.signed isImaginary)
  | _ => none

/-- What empty brackets behind a value make of it. -/
def called : LiteralKind × List LiteralToken → LiteralKind × List LiteralToken
  | (.setName, .mark '(' :: .mark ')' :: rest) => (.value false, rest)
  | reading => reading

end LiteralKind

mutual

def readLiteral : Nat → List LiteralToken → Option (LiteralKind × List LiteralToken)
  | 0, _ => none
  | fuel + 1, tokens => do
    let (left, rest) ← readSigned fuel tokens
    match rest with
    | .mark c :: more =>
      if c == '+' || c == '-' then
        let (right, more) ← readOperand fuel more
        if left.isReal && right == .number true then some (.value true, more) else none
      else some (left, rest)
    | _ => some (left, rest)

def readSigned : Nat → List LiteralToken → Option (LiteralKind × List LiteralToken)
  | 0, _ => none
  | fuel + 1, tokens =>
    match tokens with
    | .mark '+' :: rest | .mark '-' :: rest => do
      let (kind, rest) ← readOperand fuel rest
      return (← kind.withSign?, rest)
    | tokens => readOperand fuel tokens

/-- A value without a sign. Quoted texts of one sort that follow each other are one. -/
def readOperand : Nat → List LiteralToken → Option (LiteralKind × List LiteralToken)
  | 0, _ => none
  | fuel + 1, tokens =>
    match tokens with
    | .number isImaginary :: rest => some (.number isImaginary, rest)
    | .text isBytes :: rest =>
      match rest.dropWhile (· == .text isBytes) with
      | .text _ :: _ => none
      | rest => some (.value true, rest)
    | .constant :: rest => some (.value true, rest)
    | .setName :: rest => some (LiteralKind.called (.setName, rest))
    | .mark '(' :: .mark ')' :: rest => some (.value true, rest)
    | .mark '(' :: rest => (readGroup fuel rest).map LiteralKind.called
    | .mark '{' :: .mark '}' :: rest => some (.value false, rest)
    | .mark '{' :: rest => readBraces fuel rest
    | _ => none

/-- What stands behind a round bracket, up to the closing one: a value, or a tuple if there is a
comma. -/
def readGroup : Nat → List LiteralToken → Option (LiteralKind × List LiteralToken)
  | 0, _ => none
  | fuel + 1, tokens => do
    let (first, rest) ← readLiteral fuel tokens
    match rest with
    | .mark ')' :: rest => some (first, rest)
    | .mark ',' :: rest =>
      let (isFixed, rest) ← readItems fuel ')' rest
      some (.value ((← first.isFixed?) && isFixed), rest)
    | _ => none

/-- What stands behind a curly bracket, up to the closing one: a set, or a mapping if there is a
colon. -/
def readBraces : Nat → List LiteralToken → Option (LiteralKind × List LiteralToken)
  | 0, _ => none
  | fuel + 1, tokens => do
    let (first, rest) ← readLiteral fuel tokens
    let isFixed ← first.isFixed?
    match rest with
    | .mark ':' :: rest =>
      let rest ← if isFixed then readFields fuel rest else none
      some (.value false, rest)
    | .mark ',' :: rest =>
      let (areFixed, rest) ← readItems fuel '}' rest
      if isFixed && areFixed then some (.value false, rest) else none
    | .mark '}' :: rest => if isFixed then some (.value false, rest) else none
    | _ => none

/-- The items behind a comma, up to a closing bracket: whether all of them may be in a set. -/
def readItems : Nat → Char → List LiteralToken → Option (Bool × List LiteralToken)
  | 0, _, _ => none
  | fuel + 1, closing, tokens =>
    if tokens.head? = some (.mark closing) then some (true, tokens.drop 1)
    else do
      let (item, rest) ← readLiteral fuel tokens
      let isFixed ← item.isFixed?
      match rest with
      | .mark ',' :: rest =>
        let (areFixed, rest) ← readItems fuel closing rest
        some (isFixed && areFixed, rest)
      | .mark c :: rest => if c == closing then some (isFixed, rest) else none
      | _ => none

/-- The rest of a mapping behind a colon: the tokens behind its closing bracket. -/
def readFields : Nat → List LiteralToken → Option (List LiteralToken)
  | 0, _ => none
  | fuel + 1, tokens => do
    let (value, rest) ← readLiteral fuel tokens
    let _ ← value.isFixed?
    match rest with
    | .mark '}' :: rest => some rest
    | .mark ',' :: .mark '}' :: rest => some rest
    | .mark ',' :: rest =>
      let (key, rest) ← readLiteral fuel rest
      match rest with
      | .mark ':' :: rest => if (← key.isFixed?) then readFields fuel rest else none
      | _ => none
    | _ => none

end

def withoutOuterLines (tokens : List LiteralToken) : List LiteralToken :=
  ((tokens.dropWhile (· == .lineEnd)).reverse.dropWhile (· == .lineEnd)).reverse

/-- Whether a text is a written value. A tuple needs no brackets around it. -/
def isLiteral (s : List Char) : Bool :=
  match literalTokens? s with
  | none => false
  | some tokens =>
    let tokens := withoutOuterLines tokens ++ [.mark ')']
    match readGroup (4 * tokens.length) tokens with
    | some (kind, []) => kind.isFixed?.isSome
    | _ => false

end FlowCorpus.Cli
