import FlowCorpus.Yaml.Token

/-!
# Plain scalars

Scalars without quotes. A plain scalar is made of runs of characters; it goes on over spaces and
over lines that are indented enough. One line end in it is a space, and of several the first is
dropped.
-/

set_option autoImplicit false

namespace FlowCorpus.Yaml

def isFlowMark (c : Char) : Bool :=
  [',', '[', ']', '\x7b', '\x7d'].contains c

def isIndicator (c : Char) : Bool :=
  ",[]\x7b\x7d#&*!|>'\"%@\x60".toList.contains c

def plainBegins (flow : Bool) : List Char → Bool
  | [] => false
  | c :: rest =>
    if c == '-' then !atGap rest
    else if c == '?' || c == ':' then !flow && !atGap rest
    else !isGap c && !isIndicator c

def runEnds (flow : Bool) : List Char → Bool
  | [] => true
  | c :: rest =>
    isGap c || (c == ':' && (atGap rest || (flow && rest.head?.any isFlowMark))) ||
      (flow && (isFlowMark c || c == '?'))

def runLength (flow : Bool) : List Char → Nat
  | [] => 0
  | c :: rest => if runEnds flow (c :: rest) then 0 else runLength flow rest + 1

/-- What a first line end and the ones after it stand for inside a scalar. -/
def foldedBreaks (first : Char) (more : List Char) : List Char :=
  if first != '\n' then first :: more else if more.isEmpty then [' '] else more

/-- The line ends among the spaces and line ends at a place, and the cursor after them; none when a
mark ends the document among them. -/
def gapBreaks (p : Place) : List Char → Option (List Char) × Cursor
  | [] => (some [], ⟨[], p⟩)
  | c :: rest =>
    if c == ' ' then gapBreaks (p.after c) rest
    else if isBreak c then
      if startsWithDocumentMark rest then (none, ⟨rest, p.after c⟩)
      else
        let (breaks, next) := gapBreaks (p.after c) rest
        (breaks.map (breakText c :: ·), next)
    else (some [], ⟨c :: rest, p⟩)

/-- What stands between two runs of a plain scalar, whether that holds the end of a line, and the
cursor after it. Nothing stands between them when the scalar ends. -/
def plainGap (c : Cursor) : List Char × Bool × Cursor :=
  let spaces := c.run (· == ' ')
  let next := c.skip (· == ' ')
  match next.rest with
  | [] => (spaces, false, next)
  | d :: rest =>
    if isBreak d then
      if startsWithDocumentMark rest then ([], true, next.next)
      else
        let (breaks, next) := gapBreaks next.next.place next.next.rest
        ((breaks.map (foldedBreaks (breakText d))).getD [], true, next)
    else (spaces, false, next)

/-- A plain scalar as it was read: its characters, the place after its last run, and whether a line
ended behind that. -/
structure PlainScalar where
  chars : List Char
  stop : Place
  crossed : Bool

def plainRuns (flow : Bool) (indent : Nat) : Nat → PlainScalar → List Char → Cursor →
    PlainScalar × Cursor
  | 0, scalar, _, c => (scalar, c)
  | fuel + 1, scalar, gap, c =>
    let length := if startsWith '#' c.rest then 0 else runLength flow c.rest
    if length = 0 then (scalar, c)
    else
      let behind := c.advance length
      let (next, crossed, after) := plainGap behind
      let scalar := ⟨scalar.chars ++ gap ++ c.rest.take length, behind.place, crossed⟩
      if next.isEmpty || startsWith '#' after.rest || (!flow && after.column < indent) then
        (scalar, after)
      else plainRuns flow indent fuel scalar next after

/-- The plain scalar at a cursor. Outside flow collections its lines stand at a column or behind
it. -/
def readPlain (flow : Bool) (indent : Nat) (c : Cursor) : PlainScalar × Cursor :=
  plainRuns flow indent (c.rest.length + 1) ⟨[], c.place, false⟩ [] c

end FlowCorpus.Yaml
