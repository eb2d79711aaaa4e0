import FlowCorpus.Feature.Metadata
import FlowCorpus.Program.CallRecord
import FlowCorpus.Proofs.Outcome

/-!
# Refused records

The faults for which a record is refused. For nearly all of them a file of records passes over the
record; only a count that is given as an infinite number leads to a fault that it does not pass
over.
-/

set_option autoImplicit false

namespace FlowCorpus.Json.Value

/-- A value that stands somewhere in another one. -/
inductive Within (inner : Value) : Value → Prop where
  | itself : Within inner inner
  | item {items : List Value} {value : Value} :
      value ∈ items → Within inner value → Within inner (.arr items)
  | field {fields : Fields} {key : Text.LooseText} {value : Value} :
      (key, value) ∈ fields → Within inner value → Within inner (.obj fields)

def HasInfinite (value : Value) : Prop :=
  ∃ negative, Within (.float (.infinite negative)) value

theorem HasInfinite.of_field {fields : Fields} {key : Text.LooseText}
    (infinite : HasInfinite ((fields.get? key).getD .null)) : HasInfinite (.obj fields) := by
  obtain ⟨negative, within⟩ := infinite
  cases found : fields.get? key with
  | none =>
      rw [found] at within
      cases within
  | some value =>
      rw [found] at within
      obtain ⟨before, after, split, _⟩ := List.lookup_eq_some_iff.mp found
      exact ⟨negative, .field (split ▸ List.mem_append_right _ List.mem_cons_self) within⟩

theorem HasInfinite.of_element {value element : Value} {elements : List Value}
    (made : value.elements? = some elements) (member : element ∈ elements)
    (infinite : element.HasInfinite) : value.HasInfinite := by
  obtain ⟨negative, within⟩ := infinite
  cases value with
  | arr items =>
      cases made
      exact ⟨negative, .item member within⟩
  | str s =>
      cases made
      obtain ⟨c, _, rfl⟩ := List.mem_map.mp member
      cases within
  | obj fields =>
      cases made
      obtain ⟨field, _, rfl⟩ := List.mem_map.mp member
      cases within
  | null => cases made
  | bool b => cases made
  | int n => cases made
  | float x => cases made

end FlowCorpus.Json.Value

namespace FlowCorpus.Fault

/-- The faults of a record that its file does not pass over: an infinite count, an integer with too
many digits, and too many open brackets. -/
def escapes : Fault → Bool
  | .infiniteInteger | .integerTooLong _ | .jsonTooDeep _ => true
  | _ => false

end FlowCorpus.Fault

namespace FlowCorpus.Program

open FlowCorpus.Feature FlowCorpus.Json

/-- Why a value is refused: for a fault that is passed over, or for an infinite number in it. -/
def Refusal (value : Value) (fault : Fault) : Prop :=
  fault.isMalformedRecord = true ∧ fault.escapes = false ∨
    fault = .infiniteInteger ∧ value.HasInfinite

def Refuses {α : Type} (value : Value) (outcome : Except Fault α) : Prop :=
  ∀ fault, outcome = .error fault → Refusal value fault

section Refuses

variable {α β : Type} {value : Value}

theorem refuses_ok (value : Value) (a : α) : Refuses value (.ok a) := by
  intro fault failure
  cases failure

theorem refuses_error {fault : Fault} (malformed : fault.isMalformedRecord = true)
    (contained : fault.escapes = false) : Refuses value (.error fault : Except Fault α) := by
  intro other failure
  cases failure
  exact .inl ⟨malformed, contained⟩

theorem Refuses.bind {outcome : Except Fault α} {next : α → Except Fault β}
    (first : Refuses value outcome) (second : ∀ a, outcome = .ok a → Refuses value (next a)) :
    Refuses value (outcome >>= next) := by
  intro fault failure
  rcases Outcome.bind_error failure with early | ⟨a, reached, late⟩
  · exact first fault early
  · exact second a reached fault late

theorem Refuses.mapM {step : α → Except Fault β} {items : List α}
    (each : ∀ item ∈ items, Refuses value (step item)) : Refuses value (items.mapM step) := by
  intro fault failure
  obtain ⟨item, member, failed⟩ := Outcome.mapM_error failure
  exact each item member fault failed

/-- What a part of a value is refused for, the value is refused for. -/
theorem Refuses.widen {part : Value} {outcome : Except Fault α}
    (refused : Refuses part outcome) (contains : part.HasInfinite → value.HasInfinite) :
    Refuses value outcome := by
  intro fault failure
  rcases refused fault failure with passed | ⟨overflow, infinite⟩
  · exact .inl passed
  · exact .inr ⟨overflow, contains infinite⟩

end Refuses

/-! ## Fields -/

theorem refuses_fieldsOf (value : Value) : Refuses value (fieldsOf value) := by
  cases value with
  | obj fields => exact refuses_ok _ fields
  | null | bool | int | float | str | arr => exact refuses_error rfl rfl

theorem refuses_recordFields (value : Value) : Refuses value (recordFields value) := by
  cases value with
  | obj fields => exact refuses_ok _ fields
  | null | bool | int | float | str | arr => exact refuses_error rfl rfl

theorem eq_obj_of_fieldsOf {value : Value} {fields : Fields}
    (given : fieldsOf value = .ok fields) : value = .obj fields := by
  cases value <;> cases given
  rfl

theorem eq_obj_of_recordFields {value : Value} {fields : Fields}
    (given : recordFields value = .ok fields) : value = .obj fields := by
  cases value <;> cases given
  rfl

theorem refuses_requiredField (value : Value) (fields : Fields) (key : String) :
    Refuses value (requiredField fields key) := by
  unfold requiredField
  cases fields.get? key with
  | none => exact refuses_error rfl rfl
  | some found => exact refuses_ok _ found

theorem getD_of_requiredField {fields : Fields} {key : String} {given : Value}
    (found : requiredField fields key = .ok given) : (fields.get? key).getD .null = given := by
  unfold requiredField at found
  split at found
  · rename_i value stands
    cases found
    rw [stands]
    rfl
  · cases found

theorem refuses_elementsOf (value given : Value) : Refuses value (elementsOf given) := by
  unfold elementsOf
  cases given.elements? with
  | none => exact refuses_error rfl rfl
  | some elements => exact refuses_ok _ elements

theorem elements?_of_elementsOf {given : Value} {elements : List Value}
    (made : elementsOf given = .ok elements) : given.elements? = some elements := by
  unfold elementsOf at made
  split at made
  · rename_i found stands
    cases made
    exact stands
  · cases made

theorem refuses_textField (value : Value) (fields : Fields) (key : String) :
    Refuses value (textField fields key) := by
  unfold textField
  split
  · exact refuses_ok _ _
  · exact refuses_ok _ _
  · exact refuses_error rfl rfl

theorem refuses_countOf (default : Int) (value : Value) :
    Refuses value (countOf default value) := by
  intro fault failure
  unfold countOf at failure
  split at failure
  · cases failure
  · rename_i negative
    cases failure
    exact .inr ⟨rfl, negative, .itself⟩
  · cases failure
  · cases failure
  · cases failure

theorem refuses_countField (fields : Fields) (key : String) :
    Refuses (.obj fields) (countField fields key) :=
  (refuses_countOf 0 _).widen .of_field

/-! ## Records -/

theorem refuses_mapM_elements {α : Type} {value given : Value} {elements : List Value}
    {step : Value → Except Fault α} (made : elementsOf given = .ok elements)
    (contains : given.HasInfinite → value.HasInfinite)
    (each : ∀ element, Refuses element (step element)) : Refuses value (elements.mapM step) :=
  .mapM fun element member => (each element).widen fun infinite =>
    contains (.of_element (elements?_of_elementsOf made) member infinite)

theorem refuses_instruction (value : Value) : Refuses value (Instruction.ofJson value) := by
  unfold Instruction.ofJson
  refine (refuses_fieldsOf value).bind fun fields given => ?_
  obtain rfl := eq_obj_of_fieldsOf given
  refine (refuses_textField _ fields "disasm").bind fun _ _ => ?_
  refine (refuses_textField _ fields "esil").bind fun _ _ => ?_
  refine (refuses_textField _ fields "opcode").bind fun _ _ => ?_
  refine (refuses_textField _ fields "bytes").bind fun _ _ => ?_
  refine (refuses_requiredField _ fields "offset").bind fun _ _ => ?_
  refine (refuses_requiredField _ fields "type").bind fun _ _ => ?_
  exact (refuses_countField fields "size").bind fun _ _ => refuses_ok _ _

theorem refuses_switchCase (value : Value) : Refuses value (SwitchCase.ofJson value) :=
  (refuses_fieldsOf value).bind fun _ _ => refuses_ok _ _

theorem refuses_switchTable (fields : Fields) :
    Refuses (.obj fields) (SwitchTable.ofFields fields) := by
  unfold SwitchTable.ofFields
  have counts (cases : List SwitchCase) : Refuses (.obj fields) (do
      let defval ← countField fields "defval"
      let minval ← countField fields "minval"
      let maxval ← countField fields "maxval"
      return ({ offset := addressField fields "offset", defval, minval, maxval, cases } :
        SwitchTable)) :=
    (refuses_countField fields "defval").bind fun _ _ =>
      (refuses_countField fields "minval").bind fun _ _ =>
        (refuses_countField fields "maxval").bind fun _ _ => refuses_ok _ _
  by_cases given : (optionalField fields "cases").isTruthy
  · simp only [given, ↓reduceIte]
    refine (refuses_elementsOf _ _).bind fun elements made => ?_
    exact (refuses_mapM_elements made .of_field refuses_switchCase).bind fun cases _ => counts cases
  · simp only [given, Bool.false_eq_true, ↓reduceIte]
    exact counts []

theorem refuses_switchTable? (value : Value) : Refuses value (SwitchTable.ofJson? value) := by
  cases value with
  | obj fields => exact (refuses_switchTable fields).bind fun _ _ => refuses_ok _ _
  | null | bool | int | float | str | arr => exact refuses_ok _ _

theorem refuses_block (value : Value) : Refuses value (Block.ofJson value) := by
  unfold Block.ofJson
  refine (refuses_fieldsOf value).bind fun fields given => ?_
  obtain rfl := eq_obj_of_fieldsOf given
  refine (refuses_countField fields "size").bind fun _ _ => ?_
  refine (refuses_requiredField _ fields "ops").bind fun operations found => ?_
  refine (refuses_elementsOf _ operations).bind fun elements made => ?_
  -- An infinite number in an operation is one in the block.
  have contains : operations.HasInfinite → Value.HasInfinite (.obj fields) := fun infinite =>
    .of_field (getD_of_requiredField found ▸ infinite)
  refine (refuses_mapM_elements made contains refuses_instruction).bind fun _ _ => ?_
  refine Refuses.bind ?_ fun _ _ => refuses_ok _ _
  exact (refuses_switchTable? _).widen .of_field

theorem refuses_sizeField (fields : Fields) : Refuses (.obj fields) (sizeField fields) := by
  unfold sizeField
  split
  · exact refuses_ok _ _
  · exact ((refuses_countOf 0 _).widen .of_field).bind fun _ _ => refuses_ok _ _

theorem refuses_unwrapped (value : Value) : Refuses value (unwrapped value) := by
  unfold unwrapped
  split
  · exact refuses_ok _ _
  · exact refuses_error rfl rfl
  · exact refuses_ok _ _

theorem hasInfinite_of_unwrapped {value record : Value} (single : unwrapped value = .ok record)
    (infinite : record.HasInfinite) : value.HasInfinite := by
  unfold unwrapped at single
  split at single
  · cases single
    exact .of_element rfl List.mem_cons_self infinite
  · cases single
  · cases single
    exact infinite

theorem refuses_function (value : Value) : Refuses value (Function.ofJson value) := by
  unfold Function.ofJson
  refine (refuses_unwrapped value).bind fun record single => ?_
  refine Refuses.widen ?_ (hasInfinite_of_unwrapped single)
  refine (refuses_recordFields record).bind fun fields given => ?_
  obtain rfl := eq_obj_of_recordFields given
  refine (refuses_requiredField _ fields "name").bind fun _ _ => ?_
  refine (refuses_requiredField _ fields "offset").bind fun _ _ => ?_
  refine (refuses_sizeField fields).bind fun _ _ => ?_
  refine (refuses_requiredField _ fields "blocks").bind fun blocks found => ?_
  refine (refuses_elementsOf _ blocks).bind fun elements made => ?_
  have contains : blocks.HasInfinite → Value.HasInfinite (.obj fields) := fun infinite =>
    .of_field (getD_of_requiredField found ▸ infinite)
  exact (refuses_mapM_elements made contains refuses_block).bind fun _ _ => refuses_ok _ _

theorem refuses_importsOf (value given : Value) : Refuses value (CallRecord.importsOf given) := by
  unfold CallRecord.importsOf
  split
  · split
    · split
      · exact refuses_ok _ _
      · exact refuses_error rfl rfl
    · exact refuses_error rfl rfl
  · exact refuses_ok _ _

theorem refuses_callRecord (value : Value) : Refuses value (CallRecord.ofJson value) := by
  unfold CallRecord.ofJson
  refine (refuses_recordFields value).bind fun fields given => ?_
  obtain rfl := eq_obj_of_recordFields given
  refine (refuses_importsOf _ _).bind fun _ _ => ?_
  refine (refuses_requiredField _ fields "name").bind fun _ _ => ?_
  exact (refuses_countField fields "size").bind fun _ _ => refuses_ok _ _

/-- The facts about a function are refused only for faults that are passed over. -/
theorem passed_functionInfo {value : Value} {fault : Fault}
    (failure : FunctionInfo.ofJson value = .error fault) :
    fault.isMalformedRecord = true ∧ fault.escapes = false := by
  unfold FunctionInfo.ofJson at failure
  split at failure
  · cases failure
  · cases failure
    exact ⟨rfl, rfl⟩

end FlowCorpus.Program
