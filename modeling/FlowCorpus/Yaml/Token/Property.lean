import FlowCorpus.Number.Numeral
import FlowCorpus.Yaml.Token

/-!
# Properties and directives

What may stand in front of a node, its anchor and its tag, and the directives in front of a
document.
-/

set_option autoImplicit false

namespace FlowCorpus.Yaml

open FlowCorpus.Number FlowCorpus.Text

/-- A character of a name: an ASCII letter or digit, a minus sign or a low line. -/
def isNameChar (c : Char) : Bool :=
  (digitValue? c).isSome || c == '-' || c == '_'

def nameEnds : List Char → Bool
  | [] => true
  | c :: _ => isGap c || "?:,]\x7d%@\x60".toList.contains c

/-- What was expected in place of something that is no name. -/
def nameWords : String := "alphabetic or numeric character"

def readAnchor : Scan Token := do
  let start ← Scan.place
  let isAlias := startsWith '*' (← Scan.rest)
  let activity := if isAlias then Activity.aliasName else .anchorName
  Scan.advance 1
  let name ← Scan.run isNameChar
  if name.isEmpty || !nameEnds (← Scan.rest) then
    Scan.failExpected activity start nameWords (← Scan.rest)
  let name := String.ofList name
  return ⟨if isAlias then .aliasOf name else .anchor name, start, ← Scan.place⟩

/-- A character that may stand in a tag as it is, or begins an escape. -/
def isTagChar (c : Char) : Bool :=
  isNameChar c || ";/?:@&=+$,.!~*'()[]%".toList.contains c

def tagByte (activity : Activity) (start : Place) : Scan UInt8 := do
  Scan.advance 1
  let digits := (← Scan.rest).take 2
  if digits.length = 2 && digits.all isHexDigit then do
    Scan.advance 2
    return UInt8.ofNat (digits.foldl (fun n c => 16 * n + (digitValue? c).getD 0) 0)
  else
    Scan.failExpected activity start "URI escape sequence of 2 hexadecimal numbers"
      (digits.dropWhile isHexDigit)

def tagBytes (activity : Activity) (start : Place) : Nat → Scan (List UInt8)
  | 0 => return []
  | fuel + 1 => do
    if startsWith '%' (← Scan.rest) then
      let byte ← tagByte activity start
      return byte :: (← tagBytes activity start fuel)
    else return []

def tagChars (activity : Activity) (start : Place) : Nat → Scan (List Char)
  | 0 => return []
  | fuel + 1 => do
    let p ← Scan.place
    match ← Scan.rest with
    | [] => return []
    | c :: rest =>
      if c == '%' then do
        let bytes ← tagBytes activity start (rest.length + 1)
        match String.fromUTF8? ⟨bytes.toArray⟩ with
        | some s => return s.toList ++ (← tagChars activity start fuel)
        | none => throw (.problem (.located (some (activity, some start)) .notUnicode p))
      else if isTagChar c then do
        Scan.advance 1
        return c :: (← tagChars activity start fuel)
      else return []

/-- The rest of a tag, which is not empty. There are two activities: one for escapes, and one for
when there is nothing. -/
def tagUri (activity nothing : Activity) (start : Place) : Scan String := do
  let source ← Scan.rest
  let first ← Scan.place
  let chars ← tagChars activity start (source.length + 1)
  if (← Scan.place) = first then Scan.failExpected nothing start "URI" (← Scan.rest)
  else return String.ofList chars

def tagHandle (activity : Activity) (start : Place) : Scan String := do
  let source ← Scan.rest
  if !startsWith '!' source then Scan.failExpected activity start "'!'" source
  let name := (source.drop 1).takeWhile isNameChar
  let next := source.drop (1 + name.length)
  if startsWith ' ' (source.drop 1) then
    Scan.advance 1
    return "!"
  else
    Scan.advance (1 + name.length)
    if startsWith '!' next then
      Scan.advance 1
      return String.ofList ('!' :: (name ++ ['!']))
    else Scan.failExpected activity start "'!'" next

/-- The tag at a cursor: written out between angle brackets, a lone exclamation mark, or a handle
and a rest. -/
def readTag : Scan Token := do
  let start ← Scan.place
  let source ← Scan.rest
  let after := source.drop 1
  let (handle, suffix) ←
    if startsWith '<' after then do
      Scan.advance 2
      let uri ← tagUri .tag .tagUri start
      if !startsWith '>' (← Scan.rest) then
        Scan.failExpected .tagUri start "'>'" (← Scan.rest)
      Scan.advance 1
      pure (none, uri)
    else if atGap after then do
      Scan.advance 1
      pure (none, "!")
    else if (after.takeWhile fun c => !atSpace [c]).contains '!' then do
      let handle ← tagHandle .tag start
      pure (some handle, ← tagUri .tag .tagUri start)
    else do
      Scan.advance 1
      pure (some "!", ← tagUri .tag .tagUri start)
  if !atSpace (← Scan.rest) then Scan.failExpected .tag start "' '" (← Scan.rest)
  return ⟨.tag handle suffix, start, ← Scan.place⟩

def versionNumber (start : Place) : Scan Nat := do
  let digits ← Scan.run isDigit
  if digits.isEmpty then Scan.failExpected .directive start "a digit" (← Scan.rest)
  else if digitLimit < digits.length then throw (.fault (.integerTooLong digits.length))
  else return digitsValue digits

def versionDirective (start : Place) : Scan Directive := do
  Scan.skip (· == ' ')
  let major ← versionNumber start
  if !startsWith '.' (← Scan.rest) then
    Scan.failExpected .directive start "a digit or '.'" (← Scan.rest)
  Scan.advance 1
  let _ ← versionNumber start
  if !atSpace (← Scan.rest) then
    Scan.failExpected .directive start "a digit or ' '" (← Scan.rest)
  return .version major

def handleDirective (start : Place) : Scan Directive := do
  Scan.skip (· == ' ')
  let name ← tagHandle .directive start
  if !startsWith ' ' (← Scan.rest) then Scan.failExpected .directive start "' '" (← Scan.rest)
  Scan.skip (· == ' ')
  let full ← tagUri .directive .directiveUri start
  if !atSpace (← Scan.rest) then Scan.failExpected .directive start "' '" (← Scan.rest)
  return .handle name full

def readDirective : Scan Token := do
  let start ← Scan.place
  Scan.advance 1
  let name ← Scan.run isNameChar
  if name.isEmpty || !atSpace (← Scan.rest) then
    Scan.failExpected .directive start nameWords (← Scan.rest)
  let directive ← match String.ofList name with
    | "YAML" => versionDirective start
    | "TAG" => handleDirective start
    | _ => pure .other
  let stop ← Scan.place
  if directive = .other then Scan.skip fun c => !isBreak c
  Scan.endLine .directive start
  return ⟨.directive directive, start, stop⟩

end FlowCorpus.Yaml
