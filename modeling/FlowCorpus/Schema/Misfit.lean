/-!
# Misfits

What is wrong with a value that was to be read into a typed field, and its wording. A message shows
the value itself, shortened in its middle when it is long.
-/

set_option autoImplicit false

namespace FlowCorpus.Schema

/-- Why a value does not fit its field. -/
inductive Misfit where
  /-- There is no value. -/
  | missing
  /-- A value that is no integer. -/
  | notAnInteger
  /-- A text that is no integer. -/
  | integerText
  /-- An integer text of too many digits, or an integral double that is too large. -/
  | integerSize
  /-- A double with a fraction where an integer was expected. -/
  | fraction
  /-- A double that is not finite where an integer was expected. -/
  | notFinite
  /-- An integer below the least one. -/
  | tooSmall (least : Int)
  /-- A value that is no text. -/
  | notText
  /-- Bytes that are no text. -/
  | notUnicode
  /-- A value that is no truth value. -/
  | notBoolean
  /-- A text or number that stands for no truth value. -/
  | booleanWord
  /-- A value that is none of some texts. -/
  | notAChoice (choices : List String)
  /-- A value that is no object. -/
  | notAnObject (model : String)
deriving DecidableEq, Repr

namespace Misfit

def name : Misfit → String
  | .missing => "missing"
  | .notAnInteger => "int_type"
  | .integerText => "int_parsing"
  | .integerSize => "int_parsing_size"
  | .fraction => "int_from_float"
  | .notFinite => "finite_number"
  | .tooSmall _ => "greater_than_equal"
  | .notText => "string_type"
  | .notUnicode => "string_unicode"
  | .notBoolean => "bool_type"
  | .booleanWord => "bool_parsing"
  | .notAChoice _ => "literal_error"
  | .notAnObject _ => "model_type"

def listChoices : List String → String
  | [] => ""
  | [choice] => "'" ++ choice ++ "'"
  | [first, last] => "'" ++ first ++ "' or '" ++ last ++ "'"
  | choice :: rest => "'" ++ choice ++ "', " ++ listChoices rest

def message : Misfit → String
  | .missing => "Field required"
  | .notAnInteger => "Input should be a valid integer"
  | .integerText =>
    "Input should be a valid integer, unable to parse string as an integer"
  | .integerSize => "Unable to parse input string as an integer, exceeded maximum size"
  | .fraction => "Input should be a valid integer, got a number with a fractional part"
  | .notFinite => "Input should be a finite number"
  | .tooSmall least => "Input should be greater than or equal to " ++ toString least
  | .notText => "Input should be a valid string"
  | .notUnicode => "Input should be a valid string, unable to parse raw data as a unicode string"
  | .notBoolean => "Input should be a valid boolean"
  | .booleanWord => "Input should be a valid boolean, unable to interpret input"
  | .notAChoice choices => "Input should be " ++ listChoices choices
  | .notAnObject model => "Input should be a valid dictionary or instance of " ++ model

end Misfit

/-- A value as messages show it: its text and the name of its type. -/
structure Exhibit where
  text : String
  type : String
deriving DecidableEq, Repr

/-- The characters at the start of a text that take no more than a number of bytes. -/
def takeBytes (limit : Nat) : List Char → List Char
  | [] => []
  | c :: rest => if c.utf8Size ≤ limit then c :: takeBytes (limit - c.utf8Size) rest else []

def shortened (s : String) : String :=
  if s.utf8ByteSize ≤ 50 then s
  else
    String.ofList (takeBytes 25 s.toList) ++ "..." ++
      String.ofList (takeBytes 24 s.toList.reverse).reverse

/-- Where a setting stands in a configuration or record, and what is wrong with it. -/
structure Issue where
  location : List String
  misfit : Misfit
  exhibit : Exhibit
deriving DecidableEq, Repr

/-- The wording of an issue: its place, and below it what is wrong with which value. -/
def Issue.text (issue : Issue) : String :=
  let place := if issue.location.isEmpty then "" else ".".intercalate issue.location ++ "\n"
  place ++ "  " ++ issue.misfit.message ++ " [type=" ++ issue.misfit.name ++ ", input_value=" ++
    shortened issue.exhibit.text ++ ", input_type=" ++ issue.exhibit.type ++ "]"

end FlowCorpus.Schema
