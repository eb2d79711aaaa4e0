import FlowCorpus.Schema.Datum
import FlowCorpus.Text.Substitute
import FlowCorpus.Text.Word

/-!
# Environment variables in settings

A placeholder in a text names a variable, and may give a default after a colon. It stands for the
value of the variable when that is set, even to nothing, and for the default otherwise. What takes
the place of a placeholder is not looked at again.
-/

set_option autoImplicit false

namespace FlowCorpus.Config

open FlowCorpus.Schema FlowCorpus.Text

abbrev Environment := List (String × String)

/-- The variables in texts that have a name, an equals sign and a value each. -/
def Environment.ofTexts (texts : List String) : Environment :=
  texts.filterMap fun s =>
    let name := s.toList.takeWhile (· != '=')
    match s.toList.drop name.length with
    | [] => none
    | _ :: value => some (String.ofList name, String.ofList value)

def Environment.expand (env : Environment) (name : List Char) (default : List Char) : List Char :=
  match env.lookup (String.ofList name) with
  | some value => value.toList
  | none => default

def closing : Char := '\x7d'

/-- The rest of a placeholder after its name: its end, or a default and its end. There are the
number of characters and the default. -/
def placeholderEnd? : List Char → Option (Nat × List Char)
  | ':' :: rest =>
    let default := rest.takeWhile (· != closing)
    if default.length < rest.length then some (default.length + 2, default) else none
  | c :: _ => if c = closing then some (1, []) else none
  | [] => none

def placeholder (env : Environment) : Rule
  | '$' :: '\x7b' :: rest =>
    let name := rest.takeWhile isWord
    if name.isEmpty then none
    else
      (placeholderEnd? (rest.drop name.length)).map fun (count, default) =>
        (2 + name.length + count, env.expand name default)
  | _ => none

def interpolate (env : Environment) (s : String) : String :=
  String.ofList (substitute (placeholder env) s.toList)

mutual

/-- A value with every text in it replaced; keys stay, and so does what is in sets and pairs. -/
def mapTexts (f : String → String) : Datum → Datum
  | .text s => .text (f s)
  | .halved s => .halved (f s)
  | .list items => .list (mapItems f items)
  | .mapping entries => .mapping (mapEntries f entries)
  | d => d

def mapItems (f : String → String) : List Datum → List Datum
  | [] => []
  | item :: rest => mapTexts f item :: mapItems f rest

def mapEntries (f : String → String) : List (Datum × Datum) → List (Datum × Datum)
  | [] => []
  | (key, value) :: rest => (key, mapTexts f value) :: mapEntries f rest

end

def interpolateDatum (env : Environment) (d : Datum) : Datum :=
  mapTexts (interpolate env) d

end FlowCorpus.Config
