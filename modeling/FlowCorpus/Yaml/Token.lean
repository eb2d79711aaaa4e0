import FlowCorpus.Yaml.Problem

/-!
# Tokens

The pieces that a source is made of: marks and brackets, the beginnings and ends of block
collections, scalars, and what stands in front of a node.
-/

set_option autoImplicit false

namespace FlowCorpus.Yaml

/-- How a scalar is written: plain, set off by quotes or as a block, or set off and with halves of
characters in it. -/
inductive ScalarForm where
  | plain
  | set
  | halved
deriving DecidableEq, Repr

/-- An instruction for the reading of the next document. -/
inductive Directive where
  | version (major : Nat)
  | handle (name full : String)
  | other
deriving DecidableEq, Repr

/-- What a token is. -/
inductive TokenKind where
  | streamEnd
  | directive (d : Directive)
  | documentStart
  | documentEnd
  | blockItemsStart
  | blockFieldsStart
  | blockEnd
  | flowItemsStart
  | flowFieldsStart
  | flowItemsEnd
  | flowFieldsEnd
  | item
  | separator
  | key
  | value
  | aliasOf (name : String)
  | anchor (name : String)
  | tag (handle : Option String) (suffix : String)
  | scalar (s : List Char) (form : ScalarForm)
deriving DecidableEq, Repr

def TokenKind.name : TokenKind → String
  | .streamEnd => "'<stream end>'"
  | .directive _ => "'<directive>'"
  | .documentStart => "'<document start>'"
  | .documentEnd => "'<document end>'"
  | .blockItemsStart => "'<block sequence start>'"
  | .blockFieldsStart => "'<block mapping start>'"
  | .blockEnd => "'<block end>'"
  | .flowItemsStart => "'['"
  | .flowFieldsStart => "'\x7b'"
  | .flowItemsEnd => "']'"
  | .flowFieldsEnd => "'\x7d'"
  | .item => "'-'"
  | .separator => "','"
  | .key => "'?'"
  | .value => "':'"
  | .aliasOf _ => "'<alias>'"
  | .anchor _ => "'<anchor>'"
  | .tag .. => "'<tag>'"
  | .scalar .. => "'<scalar>'"

structure Token where
  kind : TokenKind
  start : Place
  stop : Place
deriving DecidableEq, Repr

abbrev Scan (α : Type) := StateT Cursor (Except Failure) α

namespace Scan

variable {α : Type}

def rest : Scan (List Char) :=
  return (← get).rest

def place : Scan Place :=
  return (← get).place

def advance (count : Nat) : Scan Unit :=
  modify fun c => c.advance count

def run (p : Char → Bool) : Scan (List Char) :=
  modifyGet fun c => (c.run p, c.skip p)

def skip (p : Char → Bool) : Scan Unit :=
  modify fun c => c.skip p

/-- Stops with a cause at the next character, in an activity that began at a place. -/
def fail (activity : Activity) (start : Place) (cause : Cause) : Scan α := do
  throw (.problem (.located (some (activity, some start)) cause (← place)))

/-- The end of a line as the character it stands for, if there is one. -/
def lineBreak : Scan (List Char) := do
  match ← rest with
  | c :: _ => if isBreak c then do advance 1; return [breakText c] else return []
  | [] => return []

/-- Stops because something else was expected than the first of some characters. -/
def failExpected (activity : Activity) (start : Place) (what : String) (found : List Char) :
    Scan α :=
  fail activity start
    (.expected what (FlowCorpus.Text.quoted (String.singleton (found.headD '\x00'))))

/-- Goes past spaces and a comment to the end of the line, and past that. -/
def endLine (activity : Activity) (start : Place) : Scan Unit := do
  skip (· == ' ')
  if startsWith '#' (← rest) then skip fun c => !isBreak c
  if atBreak (← rest) then do let _ ← lineBreak
  else failExpected activity start "a comment or a line break" (← rest)

end Scan
end FlowCorpus.Yaml
