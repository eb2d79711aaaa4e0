import FlowCorpus.Program.Reader

/-!
# Call records

A function and the names of the functions it calls, in order. A name that is called twice is listed
twice.
-/

set_option autoImplicit false

namespace FlowCorpus.Program

open FlowCorpus.Json FlowCorpus.Text

structure CallRecord where
  name : String
  size : Int := 0
  imports : List String := []
deriving DecidableEq, Repr

namespace CallRecord

/-- The names in a list of names; a value that counts as false stands for the empty list. -/
def importsOf (value : Value) : Except Fault (List String) :=
  if value.isTruthy then
    match value with
    | .arr items =>
      match items.mapM Value.text? with
      | some names => .ok (names.map LooseText.replaced)
      | none => .error .importsNotNames
    | _ => .error .importsNotNames
  else .ok []

def ofJson (value : Value) : Except Fault CallRecord := do
  let fields ← recordFields value
  let imports ← importsOf (optionalField fields "imports")
  let name ← requiredField fields "name"
  let size ← countField fields "size"
  return { name := name.plain, size, imports }

def named? (records : List CallRecord) (name : String) : Option CallRecord :=
  records.find? fun record => record.name == name

end CallRecord
end FlowCorpus.Program
