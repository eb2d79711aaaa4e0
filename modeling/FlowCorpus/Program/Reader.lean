import FlowCorpus.Json.Printer
import FlowCorpus.Program.Function

/-!
# Reading functions

A function from a decoded record: an object, or a list that holds just one. Addresses and counts
are read leniently; missing keys, values of the wrong type and texts that are not texts are faults.
-/

set_option autoImplicit false

namespace FlowCorpus.Program

open FlowCorpus.Json

/-- The fields of an object; any other value has none. -/
def fieldsOf : Value → Except Fault Fields
  | .obj fields => .ok fields
  | _ => .error .noFields

def optionalField (fields : Fields) (key : String) : Value :=
  (fields.get? key).getD .null

/-- A field that has to be there. -/
def requiredField (fields : Fields) (key : String) : Except Fault Value :=
  match fields.get? key with
  | some value => .ok value
  | none => .error (.missingKey key)

def elementsOf (value : Value) : Except Fault (List Value) :=
  match value.elements? with
  | some elements => .ok elements
  | none => .error .wrongType

/-- A text field, absent when it is missing or null. The texts of functions are kept without halves
of surrogate pairs. -/
def textField (fields : Fields) (key : String) : Except Fault (Option String) :=
  match optionalField fields key with
  | .null => .ok none
  | .str s => .ok (some s.replaced)
  | value => .error (.textField key value.typeName)

def addressField (fields : Fields) (key : String) : Int :=
  addressOf (optionalField fields key)

/-- A count field, zero when it cannot be read. -/
def countField (fields : Fields) (key : String) : Except Fault Int :=
  countOf 0 (optionalField fields key)

def Instruction.ofJson (value : Value) : Except Fault Instruction := do
  let fields ← fieldsOf value
  let disasm ← textField fields "disasm"
  let esil ← textField fields "esil"
  let opcode ← textField fields "opcode"
  let bytes ← textField fields "bytes"
  let offset ← requiredField fields "offset"
  let kind ← requiredField fields "type"
  let size ← countField fields "size"
  return { offset := addressOf offset, kind := kind.plain, size, disasm, esil, opcode, bytes }

def SwitchCase.ofJson (value : Value) : Except Fault SwitchCase := do
  let fields ← fieldsOf value
  return {
    jump := addressField fields "jump"
    offset := addressField fields "offset"
    value := ((fields.get? "value").getD (.str "")).plain }

def SwitchTable.ofFields (fields : Fields) : Except Fault SwitchTable := do
  let given := optionalField fields "cases"
  let elements ← if given.isTruthy then elementsOf given else pure []
  let cases ← elements.mapM SwitchCase.ofJson
  let defval ← countField fields "defval"
  let minval ← countField fields "minval"
  let maxval ← countField fields "maxval"
  return { offset := addressField fields "offset", defval, minval, maxval, cases }

/-- The switch of a block; a value that is no object stands for none. -/
def SwitchTable.ofJson? : Value → Except Fault (Option SwitchTable)
  | .obj fields => return some (← SwitchTable.ofFields fields)
  | _ => return none

def Block.ofJson (value : Value) : Except Fault Block := do
  let fields ← fieldsOf value
  let size ← countField fields "size"
  let operations ← elementsOf (← requiredField fields "ops")
  let instructions ← operations.mapM Instruction.ofJson
  let switch ← SwitchTable.ofJson? (optionalField fields "switchop")
  return {
    offset := addressField fields "offset"
    size
    jump := addressField fields "jump"
    fail := addressField fields "fail"
    instructions
    switch }

def unwrapped : Value → Except Fault Value
  | .arr [value] => .ok value
  | .arr items => .error (.functionCount items.length)
  | value => .ok value

/-- The fields of a record that has to be an object. -/
def recordFields : Value → Except Fault Fields
  | .obj fields => .ok fields
  | value => .error (.notAnObject value.typeName)

def sizeField (fields : Fields) : Except Fault (Option Int) :=
  match optionalField fields "size" with
  | .null => .ok none
  | value => return some (← countOf 0 value)

def Function.ofJson (value : Value) : Except Fault Function := do
  let fields ← recordFields (← unwrapped value)
  let name ← requiredField fields "name"
  let offset ← requiredField fields "offset"
  let size ← sizeField fields
  let elements ← elementsOf (← requiredField fields "blocks")
  let blocks ← elements.mapM Block.ofJson
  return { name := name.plain, offset := addressOf offset, size, blocks }

end FlowCorpus.Program
