import FlowCorpus.Schema.Misfit
import FlowCorpus.Text.Loose

/-!
# Faults

Why an operation stops. A fault is a cause; its wording is one function, and its kind says who
deals with it: a malformed record is skipped, a failing function is counted, anything else fails a
whole file.
-/

set_option autoImplicit false

namespace FlowCorpus

open FlowCorpus.Schema FlowCorpus.Text

/-- Why the file store refuses an operation. -/
inductive StoreFault where
  | missing
  | exists
  | notADirectory
  | isADirectory
  | nameTooLong
deriving DecidableEq, Repr

namespace StoreFault

def describe : StoreFault → String
  | .missing => "[Errno 2] No such file or directory"
  | .exists => "[Errno 17] File exists"
  | .notADirectory => "[Errno 20] Not a directory"
  | .isADirectory => "[Errno 21] Is a directory"
  | .nameTooLong => "[Errno 36] File name too long"

end StoreFault

/-- The choices that are known by name. -/
inductive Choice where
  | nodeLabel
  | pathFormat
  | outcome
deriving DecidableEq, Repr

def Choice.name : Choice → String
  | .nodeLabel => "NodeLabel"
  | .pathFormat => "FilepathFormat"
  | .outcome => "Outcome"

/-- A cause for which an operation stops. -/
inductive Fault where
  /-- An architecture that is not supported. -/
  | unsupportedArchitecture (name : String)
  /-- A name of no feature scheme. -/
  | unknownScheme (name choices : String)
  /-- A name of none of the values of a choice. -/
  | notAChoice (name : String) (choice : Choice)
  /-- A scheme whose vectors have no named fields. -/
  | noNamedFields (scheme : String)
  /-- A counting scheme without an architecture to count for. -/
  | architectureNeeded (scheme : String)
  /-- A scheme that has no instruction text. -/
  | notInstructionText (scheme : String)
  /-- A scheme of which no instruction corpus is made. -/
  | notACorpusScheme (scheme : String)
  /-- Random walks outside the format of single instructions. -/
  | walksNeedSingles
  /-- A list of several functions, or none, where one was expected. -/
  | functionCount (count : Nat)
  /-- A value of another type where an object was expected. -/
  | notAnObject (type : String)
  /-- A text field of an instruction that is not text. -/
  | textField (field type : String)
  /-- Imports that are not a list of names. -/
  | importsNotNames
  /-- A key that is not there. -/
  | missingKey (key : String)
  /-- A value that cannot be gone through, measured or looked into. -/
  | wrongType
  /-- A value without fields asked for one. -/
  | noFields
  /-- A position outside a sequence. -/
  | outOfRange
  /-- An infinite double where an integer was expected. -/
  | infiniteInteger
  /-- An integer beyond the greatest double. -/
  | integerTooLarge
  /-- A quotient beyond the greatest double. -/
  | quotientTooLarge
  /-- A text that is not JSON. -/
  | malformedJson
  /-- An integer literal with more digits than the limit. -/
  | integerTooLong (digits : Nat)
  /-- A vector of another length than its scheme has fields. -/
  | featureCount (expected : Nat) (scheme : String) (count : Nat)
  /-- A text that is no number. -/
  | notANumber (text : LooseText)
  /-- Rows of different lengths. -/
  | raggedRows
  /-- Extents that no nested lists can have. -/
  | impossibleExtents
  /-- A node without an identifier. -/
  | nullNode
  /-- A directory name that names no binary. -/
  | noBinaryName (directory : String)
  /-- A graph file that cannot be read. -/
  | unreadableGraph (path : String)
  /-- A file that holds something other than a graph. -/
  | notAGraph (path : String)
  /-- A configuration file that is not YAML, with what is wrong with it. -/
  | invalidYaml (path detail : String)
  /-- A configuration file with invalid settings. -/
  | invalidSettings (path : String) (issues : List Issue)
  /-- A record or configuration value that does not fit its model. -/
  | invalidModel (issues : List Issue)
  /-- A refusal of the file store. -/
  | store (fault : StoreFault) (path : String)
  /-- A file name with a null character. -/
  | nullInPath
  /-- A file that is not text. -/
  | notText
  /-- A text with halves of surrogate pairs, the first ones of which stand at a place. -/
  | notEncodable (place : Nat) (halves : List Point)
  /-- A code point that no character has. -/
  | noSuchCharacter (code : Nat)
  /-- A day or time that the calendar does not have. -/
  | noSuchMoment
  /-- Values nested in each other too deeply. -/
  | tooDeep
  /-- A list or an object of JSON nested too deeply in others. -/
  | jsonTooDeep (isObject : Bool)
  /-- A text to be shown whose markup does not close what it opens. -/
  | brokenMarkup
  /-- A level of logging that is a text of another kind. -/
  | unknownLevel (name : String)
  /-- A level of logging that is not a number. -/
  | levelNotNumber
  /-- More workers than a pool can have. -/
  | tooManyWorkers
deriving DecidableEq, Repr

/-- Kinds of faults, by who deals with them. -/
inductive FaultKind where
  /-- A fault of the domain. -/
  | domain
  /-- An architecture that is not supported. -/
  | architecture
  /-- A graph that cannot be loaded. -/
  | load
  /-- A value that is not acceptable. -/
  | value
  /-- Text that is not JSON. -/
  | parsing
  /-- Values that do not fit a model. -/
  | validation
  /-- Bytes that are not text. -/
  | decoding
  /-- A text that has no bytes. -/
  | encoding
  /-- A value of the wrong type. -/
  | type
  /-- A missing key. -/
  | key
  /-- A field of a value that has none. -/
  | field
  /-- A position out of range. -/
  | index
  /-- A number out of range. -/
  | range
  /-- Values nested too deeply. -/
  | depth
  /-- A text that cannot be shown. -/
  | markup
  /-- A refusal of the file store. -/
  | store (fault : StoreFault)
deriving DecidableEq, Repr

namespace Fault

def intLimit : Nat := 2147483648

def kind : Fault → FaultKind
  | .unsupportedArchitecture _ => .architecture
  | .unknownScheme .. | .noNamedFields _ | .architectureNeeded _ | .notACorpusScheme _
  | .walksNeedSingles | .invalidYaml .. | .invalidSettings .. => .domain
  | .unreadableGraph _ | .notAGraph _ => .load
  | .notAChoice .. | .notInstructionText _ | .functionCount _ | .integerTooLong _
  | .featureCount .. | .notANumber _ | .raggedRows | .impossibleExtents | .nullNode
  | .noBinaryName _ | .nullInPath | .unknownLevel _ | .noSuchMoment => .value
  | .noSuchCharacter code => if code < intLimit then .value else .range
  | .malformedJson => .parsing
  | .invalidModel _ => .validation
  | .notText => .decoding
  | .notEncodable .. => .encoding
  | .notAnObject _ | .textField .. | .importsNotNames | .wrongType | .levelNotNumber => .type
  | .missingKey _ => .key
  | .noFields => .field
  | .outOfRange => .index
  | .infiniteInteger | .integerTooLarge | .quotientTooLarge | .tooManyWorkers => .range
  | .tooDeep | .jsonTooDeep _ => .depth
  | .brokenMarkup => .markup
  | .store fault _ => .store fault

def issueCount (issues : List Issue) : String :=
  toString issues.length ++
    (if issues.length = 1 then " validation error" else " validation errors")

/-- The wording of a fault that is shown to users; a fault without one shows only its kind. -/
def message? : Fault → Option String
  | .unsupportedArchitecture name => some ("Unsupported architecture: " ++ quoted name)
  | .unknownScheme name choices =>
    some ("Unknown feature scheme " ++ quoted name ++ " (choose from " ++ choices ++ ")")
  | .notAChoice name choice => some (quoted name ++ " is not a valid " ++ choice.name)
  | .noNamedFields scheme => some ("Scheme " ++ scheme ++ " has no named fields")
  | .architectureNeeded scheme => some (scheme ++ " features need a known architecture")
  | .notInstructionText scheme => some (scheme ++ " is not an instruction-text scheme")
  | .notACorpusScheme scheme =>
    some ("NLP output needs the esil or disasm scheme, got " ++ scheme)
  | .walksNeedSingles =>
    some "random walks are only written in the single-instruction format"
  | .functionCount count =>
    some ("expected a single function per record, got " ++ toString count)
  | .notAnObject type => some ("expected a JSON object, got " ++ type)
  | .textField field type =>
    some ("instruction field " ++ quoted field ++ " must be a string, got " ++ type)
  | .importsNotNames => some "imports must be a list of function names"
  | .missingKey key => some key
  | .featureCount expected scheme count =>
    some ("expected " ++ toString expected ++ " " ++ scheme ++ " features, got " ++ toString count)
  | .noBinaryName directory => some ("cannot parse binary name from " ++ quoted directory)
  | .unreadableGraph path => some ("Unable to load " ++ path)
  | .notAGraph path => some ("Unable to load " ++ path ++ ": not an adjacency graph")
  | .invalidYaml path _ => some ("Invalid YAML in " ++ path)
  | .invalidSettings path issues =>
    some ("Invalid configuration in " ++ path ++ ": " ++ issueCount issues ++ " for CfgMLConfig")
  | _ => none

/-- Where some halves of surrogate pairs stand in a text, and which half it is when there is one. -/
def halvesText (place : Nat) : List Point → String
  | [half] =>
    "character '" ++ String.ofList half.escape ++ "' in position " ++ toString place
  | halves =>
    "characters in position " ++ toString place ++ "-" ++ toString (place + halves.length - 1)

def logText : Fault → String
  | .missingKey key => quoted key
  | .notANumber text => "could not convert string to float: " ++ text.quoted
  | .integerTooLong digits =>
    "Exceeds the limit (4300 digits) for integer string conversion: value has " ++
      toString digits ++
      " digits; use sys.set_int_max_str_digits() to increase the limit"
  | .store fault path => fault.describe ++ ": " ++ quoted path
  | .nullInPath => "embedded null byte"
  | .notEncodable place halves =>
    "'utf-8' codec can't encode " ++ halvesText place halves ++ ": surrogates not allowed"
  | .infiniteInteger => "cannot convert float infinity to integer"
  | .integerTooLarge => "int too large to convert to float"
  | .quotientTooLarge => "integer division result too large for a float"
  | .jsonTooDeep isObject =>
    "maximum recursion depth exceeded while decoding a JSON " ++
      (if isObject then "object" else "array") ++ " from a unicode string"
  | fault => fault.message?.getD ""

def detail : Fault → String
  | .invalidYaml _ detail => ": " ++ detail
  | .invalidSettings _ issues => String.join (issues.map fun issue => "\n" ++ issue.text)
  | _ => ""

def issues : Fault → List Issue
  | .invalidSettings _ issues => issues
  | .invalidModel issues => issues
  | _ => []

/-- Faults that make one record malformed, so that it is skipped: a missing key, a value without
fields, and a value that is not acceptable or of the wrong type. -/
def isMalformedRecord (fault : Fault) : Bool :=
  match fault.kind with
  | .key | .field | .type | .value | .parsing | .validation | .decoding | .encoding => true
  | _ => false

/-- Faults that fail one function and leave the rest of its file: those of the domain and of the
file store, and values that are not acceptable. -/
def isFunctionFailure (fault : Fault) : Bool :=
  match fault.kind with
  | .domain | .architecture | .load | .store _ | .value | .parsing | .validation | .decoding
  | .encoding => true
  | _ => false

end Fault
end FlowCorpus
