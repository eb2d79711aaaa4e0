import FlowCorpus.Fault
import FlowCorpus.Text.Blank
import FlowCorpus.Text.Case

/-!
# Feature schemes

What is computed for a block: counts in fixed named fields, lines of instruction text, or vectors
that a model provides.
-/

set_option autoImplicit false

namespace FlowCorpus.Feature

open FlowCorpus.Text

/-- A feature scheme. -/
inductive Scheme where
  | gemini
  | discovre
  | dgis
  | tiknib
  | disasm
  | esil
  | embedded
  | encoded
deriving DecidableEq, Repr

/-- The fields of the Gemini scheme without the number of offspring, which are those of
DiscovRE. -/
def discovreFields : List String :=
  ["numCalls", "numTransfer", "numArith", "numIns", "numericConsts", "stringConsts"]

def geminiFields : List String :=
  discovreFields ++ ["numOffspring"]

def dgisFields : List String :=
  ["numStackOps", "numArithOps", "numLogicOps", "numCmpOps", "numLibCalls", "numUnconJumps",
    "numConJumps", "numGenericIns"]

def tiknibFields : List String :=
  ["arithshift", "compare", "ctransfer", "ctransfercond", "dtransfer", "float", "total"]

namespace Scheme

def all : List Scheme :=
  [.gemini, .discovre, .dgis, .tiknib, .disasm, .esil, .embedded, .encoded]

def name : Scheme → String
  | .gemini => "gemini"
  | .discovre => "discovre"
  | .dgis => "dgis"
  | .tiknib => "tiknib"
  | .disasm => "disasm"
  | .esil => "esil"
  | .embedded => "embedded"
  | .encoded => "encoded"

/-- The named fields of a counting scheme; the other schemes have none. -/
def fields? : Scheme → Option (List String)
  | .gemini => some geminiFields
  | .discovre => some discovreFields
  | .dgis => some dgisFields
  | .tiknib => some tiknibFields
  | _ => none

def isCounting (s : Scheme) : Bool :=
  s.fields?.isSome

def isTextual : Scheme → Bool
  | .disasm => true
  | .esil => true
  | _ => false

def choices : String :=
  ", ".intercalate (all.map name)

def ofName? (name : String) : Option Scheme :=
  all.find? fun s => s.name == name

def parse (text : String) : Except Fault Scheme :=
  match ofName? (String.ofList ((trim text.toList).map lower)) with
  | some scheme => .ok scheme
  | none => .error (.unknownScheme text choices)

end Scheme

/-- A scheme as a caller names it: a scheme, or the reason why the name is none's. An operation
complains when it first needs the scheme, and not before. -/
abbrev NamedScheme := Except Fault Scheme

end FlowCorpus.Feature
