import FlowCorpus.Text.Digit

/-!
# Places in a source

Where something stands in a source text, what is left of the text there, and the lines around a
place as messages show them.
-/

set_option autoImplicit false

namespace FlowCorpus.Yaml

open FlowCorpus.Text

/-- A place in a source: the number of characters before it, its line and its column. -/
structure Place where
  index : Nat := 0
  line : Nat := 0
  column : Nat := 0
deriving DecidableEq, Repr, Inhabited

def isBreak (c : Char) : Bool :=
  c == '\n' || c == '\x85' || c == '\u2028' || c == '\u2029'

/-- The mark that may stand in front of a source and takes no column. -/
def orderMark : Char := '\ufeff'

def Place.after (p : Place) (c : Char) : Place :=
  if isBreak c then ⟨p.index + 1, p.line + 1, 0⟩
  else if c == orderMark then { p with index := p.index + 1 }
  else { p with index := p.index + 1, column := p.column + 1 }

def isSpaceOrTab (c : Char) : Bool :=
  c == ' ' || c == '\t'

def isGap (c : Char) : Bool :=
  isSpaceOrTab c || isBreak c

def atBreak (s : List Char) : Bool :=
  s.head?.all isBreak

def atGap (s : List Char) : Bool :=
  s.head?.all isGap

/-- Whether a text begins with a space, or is at the end of its line. -/
def atSpace (s : List Char) : Bool :=
  s.head?.all fun c => c == ' ' || isBreak c

def startsWith (c : Char) (s : List Char) : Bool :=
  s.head? == some c

/-- Whether a text begins with a mark: the given character three times, and a gap. -/
def startsWithMark (mark : Char) (s : List Char) : Bool :=
  (List.replicate 3 mark).isPrefixOf s && atGap (s.drop 3)

def startsWithDocumentMark (s : List Char) : Bool :=
  startsWithMark '-' s || startsWithMark '.' s

structure Cursor where
  rest : List Char
  place : Place := {}
deriving Repr

namespace Cursor

def next (c : Cursor) : Cursor :=
  match c.rest with
  | [] => c
  | d :: rest => ⟨rest, c.place.after d⟩

def advance : Nat → Cursor → Cursor
  | 0, c => c
  | count + 1, c => c.next.advance count

def column (c : Cursor) : Nat :=
  c.place.column

def run (p : Char → Bool) (c : Cursor) : List Char :=
  c.rest.takeWhile p

def skip (p : Char → Bool) (c : Cursor) : Cursor :=
  c.advance (c.run p).length

end Cursor

def breakText (c : Char) : Char :=
  if c == '\x85' then '\n' else c

/-- The number of characters that an excerpt shows on either side of a place. -/
def excerptReach : Nat := 32

/-- The characters of a line before or behind a place, nearest first, and whether some are left out.
-/
def excerptSide (s : List Char) : List Char × Bool :=
  let line := s.takeWhile fun c => !isBreak c
  if excerptReach + 5 ≤ line.length then (line.take excerptReach, true) else (line, false)

def excerpt (source : List Char) (p : Place) : String :=
  let (before, cutBefore) := excerptSide (source.take p.index).reverse
  let (behind, cutBehind) := excerptSide (source.drop p.index)
  let dots (cut : Bool) := if cut then " ... ".toList else []
  let start := dots cutBefore ++ before.reverse
  String.ofList (List.replicate 4 ' ' ++ start ++ behind ++ dots cutBehind ++ ['\n'] ++
    List.replicate (4 + start.length) ' ' ++ ['^'])

def Place.text (source : List Char) (p : Place) : String :=
  "  in \"<unicode string>\", line " ++ toString (p.line + 1) ++ ", column " ++
    toString (p.column + 1) ++ ":\n" ++ excerpt source p

end FlowCorpus.Yaml
