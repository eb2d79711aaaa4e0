import FlowCorpus.Program.Reader
import FlowCorpus.Proofs.Outcome

/-!
# What was read

Where the parts of a block or a function come from, when reading one has succeeded. Everything that
is proved of what was read starts from these facts, so that a change to the order in which the
fields are read stays here.
-/

set_option autoImplicit false

namespace FlowCorpus.Program

open FlowCorpus.Json FlowCorpus.Outcome

/-- The results of reading, one after the other, what stands under a key that has to be there. -/
def ReadsEach {α : Type} (fields : Fields) (key : String) (step : Value → Except Fault α)
    (results : List α) : Prop :=
  ∃ given elements, requiredField fields key = .ok given ∧ elementsOf given = .ok elements ∧
    elements.mapM step = .ok results

structure Block.ReadFrom (fields : Fields) (b : Block) : Prop where
  offset : b.offset = addressField fields "offset"
  size : countField fields "size" = .ok b.size
  jump : b.jump = addressField fields "jump"
  fail : b.fail = addressField fields "fail"
  instructions : ReadsEach fields "ops" Instruction.ofJson b.instructions
  switch : SwitchTable.ofJson? (optionalField fields "switchop") = .ok b.switch

structure Function.ReadFrom (fields : Fields) (f : Function) : Prop where
  name : ∃ name, requiredField fields "name" = .ok name ∧ f.name = name.plain
  offset : ∃ offset, requiredField fields "offset" = .ok offset ∧ f.offset = addressOf offset
  size : sizeField fields = .ok f.size
  blocks : ReadsEach fields "blocks" Block.ofJson f.blocks

theorem Block.readFrom_of_ofJson {value : Value} {b : Block} (read : Block.ofJson value = .ok b) :
    ∃ fields, fieldsOf value = .ok fields ∧ b.ReadFrom fields := by
  unfold Block.ofJson at read
  obtain ⟨fields, shape, read⟩ := bind_ok read
  obtain ⟨size, sized, read⟩ := bind_ok read
  obtain ⟨given, found, read⟩ := bind_ok read
  obtain ⟨elements, made, read⟩ := bind_ok read
  obtain ⟨instructions, each, read⟩ := bind_ok read
  obtain ⟨switch, chosen, read⟩ := bind_ok read
  cases read
  exact ⟨fields, shape, rfl, sized, rfl, rfl, ⟨given, elements, found, made, each⟩, chosen⟩

theorem Function.readFrom_of_ofJson {value : Value} {f : Function}
    (read : Function.ofJson value = .ok f) :
    ∃ fields, unwrapped value >>= recordFields = .ok fields ∧ f.ReadFrom fields := by
  unfold Function.ofJson at read
  simp only [← bind_assoc (f := recordFields)] at read
  obtain ⟨fields, shape, read⟩ := bind_ok read
  obtain ⟨name, named, read⟩ := bind_ok read
  obtain ⟨offset, placed, read⟩ := bind_ok read
  obtain ⟨size, sized, read⟩ := bind_ok read
  obtain ⟨given, found, read⟩ := bind_ok read
  obtain ⟨elements, made, read⟩ := bind_ok read
  obtain ⟨blocks, each, read⟩ := bind_ok read
  cases read
  exact ⟨fields, shape, ⟨name, named, rfl⟩, ⟨offset, placed, rfl⟩, sized,
    ⟨given, elements, found, made, each⟩⟩

/-- The cases of a switch were read one by one, or there are none to read. -/
theorem SwitchTable.cases_of_ofFields {fields : Fields} {table : SwitchTable}
    (read : SwitchTable.ofFields fields = .ok table) :
    ∃ elements : List Value, elements.mapM SwitchCase.ofJson = .ok table.cases := by
  have further (elements : List Value) (read : (do
      let cases ← elements.mapM SwitchCase.ofJson
      let defval ← countField fields "defval"
      let minval ← countField fields "minval"
      let maxval ← countField fields "maxval"
      return ({ offset := addressField fields "offset", defval, minval, maxval, cases } :
        SwitchTable)) = .ok table) : elements.mapM SwitchCase.ofJson = .ok table.cases := by
    obtain ⟨cases, each, read⟩ := bind_ok read
    obtain ⟨_, _, read⟩ := bind_ok read
    obtain ⟨_, _, read⟩ := bind_ok read
    obtain ⟨_, _, read⟩ := bind_ok read
    cases read
    exact each
  unfold SwitchTable.ofFields at read
  by_cases given : (optionalField fields "cases").isTruthy = true
  · simp only [given, ↓reduceIte] at read
    obtain ⟨elements, _, read⟩ := bind_ok read
    exact ⟨elements, further elements read⟩
  · simp only [given, Bool.false_eq_true, ↓reduceIte] at read
    exact ⟨[], further [] read⟩

end FlowCorpus.Program
