import FlowCorpus.Proofs.Program.Reading
import FlowCorpus.Proofs.Text.Loose

/-!
# Accepted records

The records that are read as functions, told by their shape alone: which keys have to be there,
which values have to be objects or texts, and where an infinite number may not stand. Whatever has
this shape is read, block by block and operation by operation, and nothing else is.
-/

set_option autoImplicit false

namespace FlowCorpus.Program

open FlowCorpus.Json FlowCorpus.Outcome FlowCorpus.Text

/-! ## Shapes -/

/-- A value that is gone through as objects one after the other: a list of objects, or an empty text
or object. -/
inductive Objects : Value → List Fields → Prop where
  | list (rows : List Fields) : Objects (.arr (rows.map .obj)) rows
  | emptyText : Objects (.str "") []
  | emptyObject : Objects (.obj []) []

/-- The objects under a key that has to be there. -/
def ObjectsAt (fields : Fields) (key : String) (rows : List Fields) : Prop :=
  ∃ given, fields.get? key = some given ∧ Objects given rows

def TextOrNull (fields : Fields) (key : String) : Prop :=
  ∀ given, fields.get? key = some given → given = .null ∨ ∃ s, given = .str s

def NotInfinite (fields : Fields) (key : String) : Prop :=
  ∀ negative, fields.get? key ≠ some (.float (.infinite negative))

structure IsOperation (fields : Fields) : Prop where
  offset : (fields.get? "offset").isSome
  kind : (fields.get? "type").isSome
  texts : ∀ key ∈ ["disasm", "esil", "opcode", "bytes"], TextOrNull fields key
  size : NotInfinite fields "size"

structure IsSwitch (fields : Fields) : Prop where
  cases : ∀ given, fields.get? "cases" = some given → given.isTruthy = true →
    ∃ rows : List Fields, given = .arr (rows.map .obj)
  counts : ∀ key ∈ ["defval", "minval", "maxval"], NotInfinite fields key

structure IsBlock (fields : Fields) : Prop where
  operations : ∃ rows, ObjectsAt fields "ops" rows ∧ ∀ row ∈ rows, IsOperation row
  size : NotInfinite fields "size"
  switch : ∀ table, fields.get? "switchop" = some (.obj table) → IsSwitch table

structure IsFunction (fields : Fields) : Prop where
  name : (fields.get? "name").isSome
  offset : (fields.get? "offset").isSome
  blocks : ∃ rows, ObjectsAt fields "blocks" rows ∧ ∀ row ∈ rows, IsBlock row
  size : NotInfinite fields "size"

/-- The record of some fields: the object, alone or in a list of its own. -/
inductive RecordOf (fields : Fields) : Value → Prop where
  | bare : RecordOf fields (.obj fields)
  | wrapped : RecordOf fields (.arr [.obj fields])

/-! ## Fields -/

theorem fieldsOf_eq_ok {value : Value} {fields : Fields} :
    fieldsOf value = .ok fields ↔ value = .obj fields := by
  cases value <;> simp [fieldsOf]

theorem succeeds_fieldsOf_bind {α : Type} {value : Value} {next : Fields → Except Fault α} :
    Succeeds (fieldsOf value >>= next) ↔
      ∃ fields, value = .obj fields ∧ Succeeds (next fields) := by
  simp only [succeeds_bind, fieldsOf_eq_ok]

theorem requiredField_eq_ok {fields : Fields} {key : String} {given : Value} :
    requiredField fields key = .ok given ↔ fields.get? key = some given := by
  unfold requiredField
  cases fields.get? key <;> simp

theorem succeeds_requiredField {fields : Fields} {key : String} :
    Succeeds (requiredField fields key) ↔ (fields.get? key).isSome := by
  simp only [Succeeds, requiredField_eq_ok, Option.isSome_iff_exists]

theorem succeeds_textField {fields : Fields} {key : String} :
    Succeeds (textField fields key) ↔ TextOrNull fields key := by
  unfold textField optionalField TextOrNull
  cases fields.get? key with
  | none => simp
  | some given => cases given <;> simp

theorem succeeds_countOf {default : Int} {value : Value} :
    Succeeds (countOf default value) ↔ ∀ negative, value ≠ .float (.infinite negative) := by
  cases value with
  | float x => cases x <;> simp [countOf]
  | str s => cases s <;> simp [countOf]
  | null | bool | int | arr | obj => simp [countOf]

theorem succeeds_countField {fields : Fields} {key : String} :
    Succeeds (countField fields key) ↔ NotInfinite fields key := by
  unfold countField optionalField NotInfinite
  rw [succeeds_countOf]
  cases fields.get? key <;> simp

theorem succeeds_sizeField {fields : Fields} :
    Succeeds (sizeField fields) ↔ NotInfinite fields "size" := by
  unfold sizeField optionalField NotInfinite
  cases fields.get? "size" with
  | none => simp
  | some given =>
      have read : Succeeds (some <$> countOf 0 given) ↔
          ∀ negative, given ≠ .float (.infinite negative) :=
        succeeds_map.trans succeeds_countOf
      cases given with
      | null => simp
      | bool | int | float | str | arr | obj => simpa using read

/-! ## Elements -/

/-- A list all of whose items are objects. -/
theorem exists_map_obj {items : List Value}
    (objects : ∀ item ∈ items, ∃ fields, item = .obj fields) :
    ∃ rows : List Fields, items = rows.map .obj := by
  induction items with
  | nil => exact ⟨[], rfl⟩
  | cons item rest ih =>
      rw [List.forall_mem_cons] at objects
      obtain ⟨⟨fields, rfl⟩, others⟩ := objects
      obtain ⟨rows, rfl⟩ := ih others
      exact ⟨fields :: rows, rfl⟩

theorem Objects.elements {given : Value} {rows : List Fields} (objects : Objects given rows) :
    elementsOf given = .ok (rows.map .obj) := by
  cases objects <;> rfl

/-- Where every element has to be an object, texts and objects have to be empty. -/
theorem objects_of_elements {given : Value} {elements : List Value}
    (made : elementsOf given = .ok elements)
    (objects : ∀ element ∈ elements, ∃ fields, element = .obj fields) :
    ∃ rows, Objects given rows := by
  cases given with
  | null | bool | int | float => cases made
  | arr items =>
      cases made
      obtain ⟨rows, rfl⟩ := exists_map_obj objects
      exact ⟨rows, .list rows⟩
  | str s =>
      cases made
      cases points : s.points with
      | nil =>
          obtain rfl : s = "" := LooseText.points_injective points
          exact ⟨[], .emptyText⟩
      | cons p rest =>
          obtain ⟨fields, impossible⟩ := objects (.str (.ofPoints [p])) (by simp [points])
          cases impossible
  | obj members =>
      cases made
      cases members with
      | nil => exact ⟨[], .emptyObject⟩
      | cons member rest =>
          obtain ⟨fields, impossible⟩ := objects (.str member.1) (by simp)
          cases impossible

/-- Elements that are read one by one as objects. -/
theorem succeeds_elements {α : Type} {given : Value} {step : Value → Except Fault α}
    {shape : Fields → Prop}
    (each : ∀ value, Succeeds (step value) ↔ ∃ fields, value = .obj fields ∧ shape fields) :
    Succeeds (elementsOf given >>= fun elements => elements.mapM step) ↔
      ∃ rows, Objects given rows ∧ ∀ row ∈ rows, shape row := by
  rw [succeeds_bind]
  constructor
  · rintro ⟨elements, made, success⟩
    simp only [succeeds_mapM, each] at success
    obtain ⟨rows, objects⟩ := objects_of_elements made fun element member =>
      (success element member).imp fun _ => And.left
    refine ⟨rows, objects, fun row member => ?_⟩
    rw [objects.elements] at made
    cases made
    obtain ⟨fields, same, shaped⟩ := success (.obj row) (List.mem_map_of_mem member)
    cases same
    exact shaped
  · rintro ⟨rows, objects, shaped⟩
    refine ⟨_, objects.elements, succeeds_mapM.mpr fun element member => ?_⟩
    obtain ⟨row, inside, rfl⟩ := List.mem_map.mp member
    exact (each _).mpr ⟨row, rfl, shaped row inside⟩

/-! ## Records -/

theorem succeeds_instruction (value : Value) :
    Succeeds (Instruction.ofJson value) ↔ ∃ fields, value = .obj fields ∧ IsOperation fields := by
  unfold Instruction.ofJson
  rw [succeeds_fieldsOf_bind]
  refine exists_congr fun fields => and_congr_right fun _ => ?_
  rw [succeeds_bind_and fun _ => succeeds_bind_and fun _ => succeeds_bind_and fun _ =>
    succeeds_bind_and fun _ => succeeds_bind_and fun _ => succeeds_bind_and fun _ =>
    succeeds_bind_and fun _ => iff_true_intro (succeeds_pure _)]
  simp only [succeeds_textField, succeeds_requiredField, succeeds_countField, and_true]
  constructor
  · rintro ⟨disasm, esil, opcode, bytes, offset, kind, size⟩
    exact ⟨offset, kind, by simp [disasm, esil, opcode, bytes], size⟩
  · rintro ⟨offset, kind, texts, size⟩
    simp only [List.forall_mem_cons] at texts
    exact ⟨texts.1, texts.2.1, texts.2.2.1, texts.2.2.2.1, offset, kind, size⟩

theorem succeeds_switchCase (value : Value) :
    Succeeds (SwitchCase.ofJson value) ↔ ∃ fields, value = .obj fields := by
  unfold SwitchCase.ofJson
  simp only [succeeds_bind, fieldsOf_eq_ok, succeeds_pure, and_true]

theorem succeeds_cases (given : Value) :
    Succeeds (do
      let elements ← elementsOf given
      elements.mapM SwitchCase.ofJson) ↔ ∃ rows, Objects given rows := by
  have each (value : Value) :
      Succeeds (SwitchCase.ofJson value) ↔ ∃ fields : Fields, value = .obj fields ∧ True := by
    simp only [succeeds_switchCase, and_true]
  simpa only [implies_true, and_true] using succeeds_elements each

theorem objects_of_truthy {given : Value} (truthy : given.isTruthy = true) :
    (∃ rows, Objects given rows) ↔ ∃ rows : List Fields, given = .arr (rows.map .obj) := by
  constructor
  · rintro ⟨rows, objects⟩
    cases objects with
    | list => exact ⟨rows, rfl⟩
    | emptyText => cases truthy
    | emptyObject => cases truthy
  · rintro ⟨rows, rfl⟩
    exact ⟨rows, .list rows⟩

theorem succeeds_switchTable (fields : Fields) :
    Succeeds (SwitchTable.ofFields fields) ↔ IsSwitch fields := by
  have counts (cases : List SwitchCase) :
      Succeeds (do
        let defval ← countField fields "defval"
        let minval ← countField fields "minval"
        let maxval ← countField fields "maxval"
        return ({ offset := addressField fields "offset", defval, minval, maxval, cases } :
          SwitchTable)) ↔ ∀ key ∈ ["defval", "minval", "maxval"], NotInfinite fields key := by
    rw [succeeds_bind_and fun _ => succeeds_bind_and fun _ => succeeds_bind_and fun _ =>
      iff_true_intro (succeeds_pure _)]
    simp [succeeds_countField]
  have split : Succeeds (SwitchTable.ofFields fields) ↔
      ((optionalField fields "cases").isTruthy = true →
        ∃ rows : List Fields, optionalField fields "cases" = .arr (rows.map .obj)) ∧
      ∀ key ∈ ["defval", "minval", "maxval"], NotInfinite fields key := by
    unfold SwitchTable.ofFields
    by_cases truthy : (optionalField fields "cases").isTruthy = true
    · simp only [truthy, ↓reduceIte, forall_const]
      rw [← objects_of_truthy truthy, ← succeeds_cases, ← succeeds_bind_and counts, bind_assoc]
    · simpa [truthy] using counts []
  rw [split]
  unfold optionalField
  constructor
  · rintro ⟨rows, counts⟩
    refine ⟨fun given found truthy => ?_, counts⟩
    rw [found] at rows
    exact rows truthy
  · rintro ⟨rows, counts⟩
    refine ⟨fun truthy => ?_, counts⟩
    cases found : fields.get? "cases" with
    | none => simp [found, Value.isTruthy] at truthy
    | some given =>
        rw [found] at truthy
        exact rows given found truthy

theorem succeeds_switchTable? (fields : Fields) :
    Succeeds (SwitchTable.ofJson? (optionalField fields "switchop")) ↔
      ∀ table, fields.get? "switchop" = some (.obj table) → IsSwitch table := by
  unfold optionalField
  cases fields.get? "switchop" with
  | none => simp [SwitchTable.ofJson?]
  | some given =>
      cases given with
      | obj table => simp [SwitchTable.ofJson?, succeeds_switchTable]
      | null | bool | int | float | str | arr => simp [SwitchTable.ofJson?]

/-- Objects under a key that are read one by one, and what is read after them. -/
theorem succeeds_objectsAt {α β : Type} {fields : Fields} {key : String}
    {step : Value → Except Fault α} {next : List α → Except Fault β} {shape : Fields → Prop}
    {further : Prop}
    (each : ∀ value, Succeeds (step value) ↔ ∃ fields, value = .obj fields ∧ shape fields)
    (independent : ∀ results, Succeeds (next results) ↔ further) :
    Succeeds (do
      let elements ← elementsOf (← requiredField fields key)
      let results ← elements.mapM step
      next results) ↔
      (∃ rows, ObjectsAt fields key rows ∧ ∀ row ∈ rows, shape row) ∧ further := by
  simp only [← bind_assoc]
  rw [succeeds_bind_and independent, bind_assoc, succeeds_bind]
  simp only [succeeds_elements each, requiredField_eq_ok, ObjectsAt]
  refine and_congr_left fun _ => ?_
  constructor
  · rintro ⟨given, found, rows, objects, shaped⟩
    exact ⟨rows, ⟨given, found, objects⟩, shaped⟩
  · rintro ⟨rows, ⟨given, found, objects⟩, shaped⟩
    exact ⟨given, found, rows, objects, shaped⟩

theorem succeeds_block (value : Value) :
    Succeeds (Block.ofJson value) ↔ ∃ fields, value = .obj fields ∧ IsBlock fields := by
  unfold Block.ofJson
  rw [succeeds_fieldsOf_bind]
  refine exists_congr fun fields => and_congr_right fun _ => ?_
  rw [succeeds_bind_and fun _ => succeeds_objectsAt succeeds_instruction fun _ =>
    succeeds_bind_and fun _ => iff_true_intro (succeeds_pure _)]
  simp only [succeeds_countField, succeeds_switchTable?, and_true]
  constructor
  · rintro ⟨size, operations, switch⟩
    exact ⟨operations, size, switch⟩
  · rintro ⟨operations, size, switch⟩
    exact ⟨size, operations, switch⟩

theorem recordFields_unwrapped {value : Value} {fields : Fields} :
    unwrapped value >>= recordFields = .ok fields ↔ RecordOf fields value := by
  constructor
  · intro given
    obtain ⟨record, single, whole⟩ := bind_ok given
    obtain rfl : record = .obj fields := by
      cases record <;> cases whole
      rfl
    unfold unwrapped at single
    split at single
    · cases single
      exact .wrapped
    · cases single
    · cases single
      exact .bare
  · intro record
    cases record <;> rfl

theorem succeeds_function (value : Value) :
    Succeeds (Function.ofJson value) ↔ ∃ fields, RecordOf fields value ∧ IsFunction fields := by
  unfold Function.ofJson
  simp only [← bind_assoc (f := recordFields)]
  rw [succeeds_bind]
  simp only [recordFields_unwrapped]
  refine exists_congr fun fields => and_congr_right fun _ => ?_
  rw [succeeds_bind_and fun _ => succeeds_bind_and fun _ => succeeds_bind_and fun _ =>
    succeeds_objectsAt succeeds_block fun _ => iff_true_intro (succeeds_pure _)]
  simp only [succeeds_requiredField, succeeds_sizeField, and_true]
  constructor
  · rintro ⟨name, offset, size, blocks⟩
    exact ⟨name, offset, blocks, size⟩
  · rintro ⟨name, offset, blocks, size⟩
    exact ⟨name, offset, size, blocks⟩

/-! ## Order -/

/-- What is read of the objects under a key, one after the other. -/
theorem results_of_objectsAt {α : Type} {fields : Fields} {key : String}
    {step : Value → Except Fault α} {results : List α} {rows : List Fields}
    (objects : ObjectsAt fields key rows) (read : ReadsEach fields key step results) :
    List.Forall₂ (fun row result => step (.obj row) = .ok result) rows results := by
  obtain ⟨value, stands, objects⟩ := objects
  obtain ⟨given, elements, found, made, each⟩ := read
  rw [requiredField_eq_ok, stands] at found
  cases found
  rw [objects.elements] at made
  cases made
  exact List.forall₂_map_left_iff.mp (mapM_ok each)

theorem instructions_of_block {fields : Fields} {block : Block} {rows : List Fields}
    (operations : ObjectsAt fields "ops" rows) (success : Block.ofJson (.obj fields) = .ok block) :
    List.Forall₂ (fun row instruction => Instruction.ofJson (.obj row) = .ok instruction) rows
      block.instructions := by
  obtain ⟨_, shape, made⟩ := Block.readFrom_of_ofJson success
  cases shape
  exact results_of_objectsAt operations made.instructions

theorem blocks_of_function {value : Value} {fields : Fields} {function : Function}
    {rows : List Fields} (record : RecordOf fields value) (blocks : ObjectsAt fields "blocks" rows)
    (success : Function.ofJson value = .ok function) :
    List.Forall₂ (fun row block => Block.ofJson (.obj row) = .ok block) rows function.blocks := by
  obtain ⟨_, shape, made⟩ := Function.readFrom_of_ofJson success
  rw [recordFields_unwrapped.mpr record] at shape
  cases shape
  exact results_of_objectsAt blocks made.blocks

/-- A value is read as a function exactly when it is the record of one; the blocks of the function
are those of the record, and the instructions of a block are its operations, in their order. -/
theorem ofJson_accepts (value : Value) :
    ((∃ function, Function.ofJson value = .ok function) ↔
      ∃ fields, RecordOf fields value ∧ IsFunction fields) ∧
    ∀ function, Function.ofJson value = .ok function →
      ∃ fields rows, RecordOf fields value ∧ ObjectsAt fields "blocks" rows ∧
        List.Forall₂ (fun row block =>
          Block.ofJson (.obj row) = .ok block ∧
          ∃ operations, ObjectsAt row "ops" operations ∧
            List.Forall₂ (fun operation instruction =>
              Instruction.ofJson (.obj operation) = .ok instruction) operations block.instructions)
          rows function.blocks := by
  refine ⟨succeeds_function value, fun function success => ?_⟩
  obtain ⟨fields, record, accepted⟩ := (succeeds_function value).mp ⟨function, success⟩
  obtain ⟨rows, blocks, shaped⟩ := accepted.blocks
  refine ⟨fields, rows, record, blocks, ?_⟩
  have each := (List.forall₂_and_left rows _).mpr
    ⟨shaped, blocks_of_function record blocks success⟩
  refine each.imp fun row block both => ⟨both.2, ?_⟩
  obtain ⟨isBlock, read⟩ := both
  obtain ⟨operations, objects, _⟩ := isBlock.operations
  exact ⟨operations, objects, instructions_of_block objects read⟩

end FlowCorpus.Program
