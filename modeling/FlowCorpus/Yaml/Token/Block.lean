import FlowCorpus.Yaml.Token.Plain

/-!
# Block scalars

Scalars of whole lines. The lines of a literal scalar stay as they are, those of a folded one are
joined, and a header says what becomes of the line ends at the end.
-/

set_option autoImplicit false

namespace FlowCorpus.Yaml

open FlowCorpus.Text

/-- What becomes of the line ends at the end of a block scalar: all but the first are left out, all
are left out, or all stay. -/
inductive Chomping where
  | clip
  | strip
  | keep
deriving DecidableEq, Repr

def Chomping.ofSign? : Option Char → Option Chomping
  | some '+' => some .keep
  | some '-' => some .strip
  | _ => none

/-- A digit of a header, the number of columns that a block scalar is indented by. -/
def indentDigit (start : Place) : Scan (Option Nat) := do
  match ← Scan.rest with
  | c :: _ =>
    if c == '0' then Scan.fail .blockScalar start .zeroIndentation
    else if isDigit c then do
      Scan.advance 1
      return digitValue? c
    else return none
  | [] => return none

def chompingSign : Scan (Option Chomping) := do
  match Chomping.ofSign? (← Scan.rest).head? with
  | some chomping => do
    Scan.advance 1
    return some chomping
  | none => return none

/-- The header of a block scalar: a sign and a digit in either order. -/
def blockHeader (start : Place) : Scan (Chomping × Option Nat) := do
  let first ← chompingSign
  let digit ← indentDigit start
  let second ← if first.isNone && digit.isSome then chompingSign else pure none
  if !atSpace (← Scan.rest) then
    Scan.failExpected .blockScalar start "chomping or indentation indicators" (← Scan.rest)
  Scan.endLine .blockScalar start
  return ((first.or second).getD .clip, digit)

/-- The line ends at a cursor, the greatest column that their lines reach with spaces, and the place
after the last of them. -/
def blankLines : Nat → Nat → Place → Scan (List Char × Nat × Place)
  | 0, widest, stop => return ([], widest, stop)
  | fuel + 1, widest, stop => do
    Scan.skip (· == ' ')
    let p ← Scan.place
    let widest := max widest p.column
    match ← Scan.lineBreak with
    | [] => return ([], widest, stop)
    | first =>
      let (breaks, widest, stop) ← blankLines fuel widest (← Scan.place)
      return (first ++ breaks, widest, stop)

def skipIndent (indent : Nat) : Scan Unit :=
  modify fun c => c.advance (min (indent - c.column) (c.run (· == ' ')).length)

/-- The line ends at a cursor, spaces up to a column standing before each, and the place after the
last of them. -/
def indentedBreaks (indent : Nat) : Nat → Place → Scan (List Char × Place)
  | 0, stop => return ([], stop)
  | fuel + 1, stop => do
    skipIndent indent
    match ← Scan.lineBreak with
    | [] => return ([], stop)
    | first =>
      let (breaks, stop) ← indentedBreaks indent fuel (← Scan.place)
      return (first ++ breaks, stop)

/-- The lines of a block scalar from a line on, and the place where the scalar ends. Before the line
stand what the end of the line before it stands for, and further line ends. -/
def blockLines (folded : Bool) (chomping : Chomping) (indent : Nat) :
    Nat → List Char → List Char → Place → Scan (List Char × Place)
  | 0, _, _, stop => return ([], stop)
  | fuel + 1, ended, breaks, stop => do
    let rest ← Scan.rest
    if (← Scan.place).column = indent && !rest.isEmpty then
      let between := ended ++ breaks
      let line ← Scan.run fun c => !isBreak c
      let ended ← Scan.lineBreak
      let (breaks, stop) ← indentedBreaks indent (rest.length + 1) (← Scan.place)
      let next ← Scan.rest
      let flush (s : List Char) := !s.head?.any isSpaceOrTab
      let ended :=
        if folded && ended = ['\n'] && flush line && flush next && (← Scan.place).column = indent &&
            !next.isEmpty then
          if breaks.isEmpty then [' '] else []
        else ended
      let (more, stop) ← blockLines folded chomping indent fuel ended breaks stop
      return (between ++ line ++ more, stop)
    else
      match chomping with
      | .strip => return ([], stop)
      | .clip => return (ended, stop)
      | .keep => return (ended ++ breaks, stop)

/-- The block scalar at a cursor, in a collection that is indented by some columns. -/
def readBlockScalar (parent : Option Nat) : Scan Token := do
  let start ← Scan.place
  let source ← Scan.rest
  let fuel := source.length + 1
  let folded := startsWith '>' source
  Scan.advance 1
  let (chomping, increment) ← blockHeader start
  let least := match parent with
    | some column => column + 1
    | none => 1
  let first ← Scan.place
  let (indent, breaks, stop) ←
    match increment with
    | none => do
      let (breaks, widest, stop) ← blankLines fuel 0 first
      pure (max least widest, breaks, stop)
    | some increment => do
      let indent := least + increment - 1
      let (breaks, stop) ← indentedBreaks indent fuel first
      pure (indent, breaks, stop)
  let (chars, stop) ← blockLines folded chomping indent fuel [] breaks stop
  return ⟨.scalar chars .set, start, stop⟩

end FlowCorpus.Yaml
