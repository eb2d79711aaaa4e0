import FlowCorpus.Number.Lenient
import FlowCorpus.Storage.Path
import FlowCorpus.Text.Split

/-!
# Options and arguments

Reading the words of a command line. A long option takes its value from the next word or after an
equals sign; short options may share one word, the last of them with its value. Two dashes end the
options. Of an option that is given twice the last value counts.
-/

set_option autoImplicit false

namespace FlowCorpus.Cli

open FlowCorpus.Number FlowCorpus.Storage FlowCorpus.Text

/-- What is wrong with the words of a command line. -/
inductive UsageFault where
  | unknownOption (name : String)
  | missingValue (name : String)
  | unexpectedValue (name : String)
  | notAnInteger (name value : String)
  | tooSmall (name : String) (least : Int)
  | notAPath (text : String)
  | missingOption (name : String)
  | missingArgument
  | extraArguments
  | missingCommand
  | unknownCommand (name : String)
deriving DecidableEq, Repr

namespace UsageFault

def message : UsageFault → String
  | .unknownOption name => "No such option: " ++ name
  | .missingValue name => "Option " ++ name ++ " requires an argument."
  | .unexpectedValue name => "Option " ++ name ++ " does not take a value."
  | .notAnInteger name value => "Invalid value for " ++ name ++ ": " ++ value ++ " is no integer."
  | .tooSmall name least =>
    "Invalid value for " ++ name ++ ": it has to be at least " ++ toString least ++ "."
  | .notAPath text => "Invalid path " ++ text ++ ": it holds a null character."
  | .missingOption name => "Missing option " ++ name ++ "."
  | .missingArgument => "Missing argument."
  | .extraArguments => "Got unexpected extra arguments."
  | .missingCommand => "Missing command."
  | .unknownCommand name => "No such command " ++ name ++ "."

end UsageFault

/-- What an option takes: a word, or nothing, when its name alone says on or off. -/
inductive OptionShape where
  | word
  | switch (on : Bool)
deriving DecidableEq, Repr

structure OptionName where
  name : String
  key : String
  shape : OptionShape
deriving DecidableEq, Repr

def wordOption (key : String) (names : List String) : List OptionName :=
  names.map fun name => ⟨name, key, .word⟩

/-- The names of a switch that is off unless it is given. -/
def switchOption (key : String) (names : List String) : List OptionName :=
  names.map fun name => ⟨name, key, .switch true⟩

def pairOption (key on off : String) : List OptionName :=
  [⟨on, key, .switch true⟩, ⟨off, key, .switch false⟩]

def helpOption : List OptionName :=
  switchOption "help" ["--help"]

/-- What is given for an option. -/
inductive Given where
  | word (value : String)
  | switch (on : Bool)
deriving DecidableEq, Repr

/-- The words of a command line: what is given for options, in order, and the other words. -/
structure Arguments where
  given : List (String × Given) := []
  rest : List String := []
deriving DecidableEq, Repr

/-- What one word gives for options, and whether it takes the next word too. -/
structure OptionReading where
  given : List (String × Given)
  takesNext : Bool := false

def named? (options : List OptionName) (name : String) : Option OptionName :=
  options.find? fun o => o.name == name

def isLong (name : String) : Bool :=
  "--".toList.isPrefixOf name.toList

def readLong (option : OptionName) (attached next : Option String) :
    Except UsageFault OptionReading :=
  match option.shape, attached with
  | .word, some value => .ok ⟨[(option.key, .word value)], false⟩
  | .word, none =>
    match next with
    | some value => .ok ⟨[(option.key, .word value)], true⟩
    | none => .error (.missingValue option.name)
  | .switch _, some _ => .error (.unexpectedValue option.name)
  | .switch on, none => .ok ⟨[(option.key, .switch on)], false⟩

def readShort (options : List OptionName) (next : Option String) :
    List Char → Except UsageFault OptionReading
  | [] => .ok ⟨[], false⟩
  | c :: rest =>
    let name := String.ofList ['-', c]
    match named? options name with
    | none => .error (.unknownOption name)
    | some option =>
      match option.shape with
      | .switch on => do
        let reading ← readShort options next rest
        return { reading with given := (option.key, .switch on) :: reading.given }
      | .word =>
        readLong option (if rest.isEmpty then none else some (String.ofList rest)) next

def splitAttached (word : String) : String × Option String :=
  let name := word.toList.takeWhile (· != '=')
  match word.toList.drop name.length with
  | [] => (word, none)
  | _ :: value => (String.ofList name, some (String.ofList value))

def readOption (options : List OptionName) (word : String) (next : Option String) :
    Except UsageFault OptionReading :=
  let (name, attached) := splitAttached word
  match (named? options name).filter fun o => isLong o.name with
  | some option => readLong option attached next
  | none =>
    if isLong word then .error (.unknownOption name)
    else readShort options next (word.toList.drop 1)

def isOption (word : String) : Bool :=
  "-".toList.isPrefixOf word.toList && 1 < word.length

/-- Reads words. Unless options may stand among arguments, the first argument ends them. -/
def scan (options : List OptionName) (mixed : Bool) :
    List String → Except UsageFault Arguments
  | [] => .ok {}
  | word :: rest =>
    if word = "--" then .ok { rest }
    else if isOption word then do
      let reading ← readOption options word rest.head?
      match rest, reading.takesNext with
      | _ :: rest, true => do
        let more ← scan options mixed rest
        return { more with given := reading.given ++ more.given }
      | rest, _ => do
        let more ← scan options mixed rest
        return { more with given := reading.given ++ more.given }
    else if mixed then do
      let more ← scan options mixed rest
      return { more with rest := word :: more.rest }
    else .ok { rest := word :: rest }

namespace Arguments

def last? (arguments : Arguments) (key : String) : Option Given :=
  (arguments.given.reverse.find? fun given => given.1 == key).map Prod.snd

def word? (arguments : Arguments) (key : String) : Option String :=
  match arguments.last? key with
  | some (.word value) => some value
  | _ => none

def switch? (arguments : Arguments) (key : String) : Option Bool :=
  match arguments.last? key with
  | some (.switch on) => some on
  | _ => none

def isOn (arguments : Arguments) (key : String) : Bool :=
  (arguments.switch? key).getD false

/-- The integer given for an option, which has to be large enough. -/
def integer? (arguments : Arguments) (key : String) (least : Int) :
    Except UsageFault (Option Int) :=
  match arguments.word? key with
  | none => .ok none
  | some value =>
    match readInteger value.toList with
    | .malformed | .oversized => .error (.notAnInteger key value)
    | .read n => if least ≤ n then .ok (some n) else .error (.tooSmall key least)

def required (arguments : Arguments) (key : String) : Except UsageFault String :=
  match arguments.word? key with
  | some value => .ok value
  | none => .error (.missingOption key)

def pathOf (word : String) : Except UsageFault Path :=
  let path := Path.ofText word
  if path.hasNull then .error (.notAPath word) else .ok path

def path? (arguments : Arguments) (key : String) : Except UsageFault (Option Path) :=
  match arguments.word? key with
  | none => .ok none
  | some word => some <$> pathOf word

def requiredPath (arguments : Arguments) (key : String) : Except UsageFault Path := do
  pathOf (← arguments.required key)

def single (arguments : Arguments) : Except UsageFault String :=
  match arguments.rest with
  | [] => .error .missingArgument
  | [word] => .ok word
  | _ => .error .extraArguments

def singlePath (arguments : Arguments) : Except UsageFault Path := do
  pathOf (← arguments.single)

end Arguments
end FlowCorpus.Cli
