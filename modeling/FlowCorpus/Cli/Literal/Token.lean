import FlowCorpus.Number.Numeral
import FlowCorpus.Text.Lines

/-!
# Tokens of written values

The numbers, quoted texts, words and marks that written values are made of. White space and comments
between them mean nothing; the end of a line counts outside brackets.
-/

set_option autoImplicit false

namespace FlowCorpus.Cli

open FlowCorpus.Number FlowCorpus.Text

/-- A token of a written value. -/
inductive LiteralToken where
  /-- A number, real or imaginary. -/
  | number (isImaginary : Bool)
  /-- A quoted text, of characters or of bytes. -/
  | text (isBytes : Bool)
  /-- A word or mark that is a value by itself. -/
  | constant
  /-- The name of the empty set, which needs brackets behind it. -/
  | setName
  /-- A bracket, a comma, a colon or a sign. -/
  | mark (c : Char)
  /-- The end of a line outside brackets. -/
  | lineEnd
deriving DecidableEq, Repr

def bracketLimit : Nat := 200

def isNameChar (c : Char) : Bool :=
  c.isAlphanum || c == '_'

/-- The rest of a text behind digits, of which single low lines may separate any two. -/
def afterDigits? (isDigitOf : Char → Bool) (needsDigit : Bool) : List Char → Option (List Char)
  | [] => if needsDigit then none else some []
  | c :: rest =>
    if isDigitOf c then afterDigits? isDigitOf false rest
    else if needsDigit then none
    else if c == '_' then afterDigits? isDigitOf true rest
    else some (c :: rest)

def afterOptionalDigits? (s : List Char) : Option (List Char) :=
  if s.head?.any isDigit then afterDigits? isDigit true s else some s

/-- The rest of a text behind an exponent, if it begins with the letter of one. -/
def afterExponent? : List Char → Option (List Char)
  | [] => some []
  | c :: rest =>
    if c == 'e' || c == 'E' then afterDigits? isDigit true (takeSign rest).2
    else some (c :: rest)

/-- A number whose characters before some rest were read, which no character of a name follows. -/
def finishNumber (isImaginary : Bool) (rest : List Char) :
    Option (LiteralToken × List Char) :=
  if rest.head?.any isNameChar then none else some (.number isImaginary, rest)

/-- The digits of a base that is named by a letter behind a zero. -/
def baseDigits? (c : Char) : Option (Char → Bool) :=
  if c == 'x' || c == 'X' then some isHexDigit
  else if c == 'o' || c == 'O' then some fun d => '0' ≤ d && d ≤ '7'
  else if c == 'b' || c == 'B' then some fun d => d == '0' || d == '1'
  else none

/-- A whole number may begin with zero only if it is zero, and has no more digits than the limit. -/
def isWholeNumber (digits : List Char) : Bool :=
  (digits.head? != some '0' || digits.all (· == '0')) && digits.length ≤ digitLimit

def readDecimal (s : List Char) : Option (LiteralToken × List Char) := do
  let behindWhole ← afterOptionalDigits? s
  let behindPlaces ←
    match behindWhole with
    | '.' :: rest => afterOptionalDigits? rest
    | rest => some rest
  let rest ← afterExponent? behindPlaces
  if rest.head?.any fun c => c == 'j' || c == 'J' then finishNumber true (rest.drop 1)
  else
    let digits := (s.take (s.length - rest.length)).filter (· != '_')
    if digits.all isDigit && !isWholeNumber digits then none else finishNumber false rest

def readLiteralNumber (s : List Char) : Option (LiteralToken × List Char) :=
  match s with
  | '0' :: c :: rest =>
    match baseDigits? c with
    | some isDigitOf =>
      match afterDigits? isDigitOf true (if rest.head? = some '_' then rest.drop 1 else rest) with
      | some rest => finishNumber false rest
      | none => none
    | none => readDecimal s
  | s => readDecimal s

/-- The characters of a quoted text behind its opening quotes and the rest of the text. Three quotes
may hold line ends. A backslash keeps the character behind it. -/
def quotedBody? (quote : Char) (isTriple : Bool) (body : List Char) :
    List Char → Option (List Char × List Char)
  | [] => none
  | '\\' :: c :: rest => quotedBody? quote isTriple (c :: '\\' :: body) rest
  | c :: rest =>
    if c == '\\' then none
    else if c == quote && !isTriple then some (body.reverse, rest)
    else if c == quote && rest.take 2 == [quote, quote] then some (body.reverse, rest.drop 2)
    else if c == '\n' && !isTriple then none
    else quotedBody? quote isTriple (c :: body) rest

/-- Whether some hexadecimal digits stand in front, and their number is not too great. -/
def hasHex (width limit : Nat) (s : List Char) : Bool :=
  let digits := s.take width
  digits.length == width && digits.all isHexDigit &&
    digits.foldl (fun n d => n * 16 + (digitValue? d).getD 0) 0 ≤ limit

def hasCharacterName (s : List Char) : Bool :=
  match s with
  | '{' :: rest =>
    let name := rest.takeWhile fun c => c.isAlphanum || c == ' ' || c == '-'
    !name.isEmpty && (rest.drop name.length).head? == some '}'
  | _ => false

def codeLimit : Nat := 0x10ffff

/-- Whether what follows a backslash and a character makes it an escape. Characters that begin no
escape stand for themselves. -/
def isEscape (isBytes : Bool) (c : Char) (rest : List Char) : Bool :=
  if c == 'x' then hasHex 2 codeLimit rest
  else if isBytes then true
  else if c == 'u' then hasHex 4 codeLimit rest
  else if c == 'U' then hasHex 8 codeLimit rest
  else if c == 'N' then hasCharacterName rest
  else true

def hasGoodEscapes (isBytes : Bool) : List Char → Bool
  | [] => true
  | '\\' :: c :: rest => isEscape isBytes c rest && hasGoodEscapes isBytes rest
  | _ :: rest => hasGoodEscapes isBytes rest

/-- A quoted text behind the letters in front of it. Bytes are ASCII, and raw texts have no
escapes. -/
def readQuoted (isBytes isRaw : Bool) : List Char → Option (LiteralToken × List Char)
  | [] => none
  | quote :: rest => do
    let isTriple := rest.take 2 == [quote, quote]
    let (body, rest) ← quotedBody? quote isTriple [] (if isTriple then rest.drop 2 else rest)
    if isBytes && body.any (fun c => 0x80 ≤ c.toNat) then none
    else if !isRaw && !hasGoodEscapes isBytes body then none
    else some (.text isBytes, rest)

/-- The letters that may stand in front of a quoted text: whether they make it bytes and raw. -/
def quoteLetters : List (String × Bool × Bool) :=
  [("r", false, true), ("u", false, false), ("b", true, false), ("br", true, true),
    ("rb", true, true)]

def isQuote (c : Char) : Bool :=
  c == '\'' || c == '"'

/-- A word: letters in front of a quoted text, or one of the names of values. -/
def readName (s : List Char) : Option (LiteralToken × List Char) :=
  let name := String.ofList (s.takeWhile isNameChar)
  let rest := s.dropWhile isNameChar
  let letters := String.ofList (name.toList.map Char.toLower)
  match quoteLetters.lookup letters with
  | some (isBytes, isRaw) =>
    if rest.head?.any isQuote then readQuoted isBytes isRaw rest else none
  | none =>
    if rest.head?.any fun c => 0x80 ≤ c.toNat then none
    else if ["True", "False", "None"].contains name then some (.constant, rest)
    else if name = "set" then some (.setName, rest)
    else none

/-- The token at the start of a text, which is neither white space nor a bracket. -/
def readLiteralToken (s : List Char) : Option (LiteralToken × List Char) :=
  match s with
  | [] => none
  | c :: rest =>
    if [',', ':', '+', '-'].contains c then some (.mark c, rest)
    else if isQuote c then readQuoted false false s
    else if isDigit c || (c == '.' && rest.head?.any isDigit) then readLiteralNumber s
    else if s.take 3 == ['.', '.', '.'] then some (.constant, s.drop 3)
    else if isNameChar c then readName s
    else none

/-- The tokens of a text, inside some brackets. The fuel bounds the number of steps. -/
def literalTokensFrom? : Nat → Nat → List Char → Option (List LiteralToken)
  | _, _, [] => some []
  | 0, _, _ => none
  | fuel + 1, depth, c :: rest =>
    if c == ' ' || c == '\t' || c == '\x0c' then literalTokensFrom? fuel depth rest
    else if c == '#' then literalTokensFrom? fuel depth (rest.dropWhile (· != '\n'))
    else if c == '\n' then
      let more := literalTokensFrom? fuel depth rest
      if depth = 0 then more.map (.lineEnd :: ·) else more
    else if c == '\\' then
      if rest.head? = some '\n' then literalTokensFrom? fuel depth (rest.drop 1) else none
    else if c == '(' || c == '{' then
      if depth < bracketLimit then
        (literalTokensFrom? fuel (depth + 1) rest).map (.mark c :: ·)
      else none
    else if c == ')' || c == '}' then
      if 0 < depth then (literalTokensFrom? fuel (depth - 1) rest).map (.mark c :: ·) else none
    else
      match readLiteralToken (c :: rest) with
      | some (token, rest) => (literalTokensFrom? fuel depth rest).map (token :: ·)
      | none => none

def literalTokens? (s : List Char) : Option (List LiteralToken) :=
  let text := normalizeLineEnds s
  if text.contains '\x00' then none else literalTokensFrom? text.length 0 text

end FlowCorpus.Cli
