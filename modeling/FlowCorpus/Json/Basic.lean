import FlowCorpus.Number.Binary64
import FlowCorpus.Text.Loose

/-!
# JSON values

Integers and doubles are different values, and an object keeps its fields in the order in which
they were first written. Texts and keys may hold halves of surrogate pairs, which escapes can name.
-/

set_option autoImplicit false

namespace FlowCorpus.Json

open FlowCorpus.Number FlowCorpus.Text

/-- A JSON value. The fields of an object have distinct keys. -/
inductive Value where
  | null
  | bool (b : Bool)
  | int (n : Int)
  | float (x : Binary64)
  | str (s : LooseText)
  | arr (items : List Value)
  | obj (fields : List (LooseText × Value))
deriving Repr, Inhabited, BEq

abbrev Fields := List (LooseText × Value)

namespace Fields

def get? (fields : Fields) (key : LooseText) : Option Value :=
  fields.lookup key

/-- The fields with one set: a key that is there keeps its place, a new one goes to the end. -/
def set (key : LooseText) (value : Value) : Fields → Fields
  | [] => [(key, value)]
  | (k, v) :: rest => if k = key then (key, value) :: rest else (k, v) :: set key value rest

def erase (fields : Fields) (key : LooseText) : Fields :=
  fields.filter fun field => field.1 != key

def update (fields changes : Fields) : Fields :=
  changes.foldl (fun fields (key, value) => set key value fields) fields

end Fields

namespace Value

def typeName : Value → String
  | .null => "NoneType"
  | .bool _ => "bool"
  | .int _ => "int"
  | .float _ => "float"
  | .str _ => "str"
  | .arr _ => "list"
  | .obj _ => "dict"

/-- Zero, the empty text, list and object, null and false count as false. -/
def isTruthy : Value → Bool
  | .null => false
  | .bool b => b
  | .int n => n != 0
  | .float x => !x.isZero
  | .str s => !s.isEmpty
  | .arr items => !items.isEmpty
  | .obj fields => !fields.isEmpty

/-- The elements that a value is made of when it is gone through one by one: the items of a list,
the code points of a text and the keys of an object. -/
def elements? : Value → Option (List Value)
  | .arr items => some items
  | .str s => some (s.points.map fun p => .str (.ofPoints [p]))
  | .obj fields => some (fields.map fun field => .str field.1)
  | _ => none

def text? : Value → Option LooseText
  | .str s => some s
  | _ => none

end Value
end FlowCorpus.Json
