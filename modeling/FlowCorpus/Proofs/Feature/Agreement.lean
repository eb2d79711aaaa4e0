import Mathlib.Algebra.BigOperators.Group.List.Lemmas
import Mathlib.Data.List.Induction
import Mathlib.Tactic.IntervalCases
import FlowCorpus.Feature.Count

/-!
# Agreement of the counting schemes

Every count of a block is the number of its valid instructions that pass a test. How the counts of
different schemes relate is then decided instruction by instruction, from which groups of opcodes
have an opcode in common.
-/

set_option autoImplicit false

namespace FlowCorpus.Feature

open FlowCorpus.Assembly FlowCorpus.Number FlowCorpus.Program

/-! ## Groups without a common opcode -/

def exclusiveGroups : List OpcodeGroup :=
  [.stack, .arithmetic, .logic, .compare, .call, .unconditional, .conditional]

theorem exclusiveGroups_disjoint (a : Architecture) :
    exclusiveGroups.Pairwise fun g h =>
      ∀ opcode ∈ a.opcodes.group g, opcode ∉ a.opcodes.group h := by
  cases a <;> decide +kernel

theorem arithmetic_not_transfer (a : Architecture) :
    ∀ opcode ∈ a.opcodes.group .arithmetic, opcode ∉ a.opcodes.group .transfer := by
  cases a <;> decide +kernel

theorem has_eq_true {a : Architecture} {g : OpcodeGroup} {opcode : String} :
    a.has g opcode = true ↔ opcode ∈ a.opcodes.group g :=
  List.contains_iff_mem

theorem has_eq_false {a : Architecture} {g : OpcodeGroup} {opcode : String} :
    a.has g opcode = false ↔ opcode ∉ a.opcodes.group g := by
  rw [← Bool.not_eq_true, has_eq_true]

/-- An opcode of an exclusive group is in none of the later ones. -/
theorem has_pairwise (a : Architecture) (opcode : String) :
    exclusiveGroups.Pairwise fun g h => a.has g opcode = true → a.has h opcode = false :=
  (exclusiveGroups_disjoint a).imp fun apart here =>
    has_eq_false.mpr (apart opcode (has_eq_true.mp here))

theorem has_later {a : Architecture} {g h : OpcodeGroup} {opcode : String}
    (order : [g, h].Sublist exclusiveGroups) (here : a.has g opcode = true) :
    a.has h opcode = false :=
  List.pairwise_pair.mp ((has_pairwise a opcode).sublist order) here

/-! ## Counts as numbers of instructions that pass a test -/

section Tests

variable {α β : Type}

theorem addRows_map (names : List α) (f g : α → Nat) :
    addRows (names.map f) (names.map g) = names.map fun name => f name + g name := by
  simp [addRows, List.zipWith_map, List.zipWith_self]

/-- Rows with a value for every name add up name by name. -/
theorem sumRows_map (names : List α) (value : β → α → Nat) (items : List β) :
    sumRows names.length (items.map fun item => names.map (value item)) =
      names.map fun name => (items.map fun item => value item name).sum := by
  induction items using List.reverseRecOn with
  | nil => simp [sumRows, List.map_const']
  | append_singleton rest item ih =>
      unfold sumRows at ih ⊢
      rw [List.map_append, List.foldl_append, ih]
      refine (addRows_map names _ _).trans (List.map_congr_left fun name _ => ?_)
      rw [List.map_append, List.sum_append]
      rfl

/-- The sum of rows of ones and zeros counts, for every test, the items that pass it. -/
theorem sumRows_tests (tests : List (α → Bool)) (items : List α) :
    sumRows tests.length (items.map fun item => tests.map fun test => one (test item)) =
      tests.map fun test => items.countP test := by
  refine (sumRows_map tests (fun item test => one (test item)) items).trans ?_
  refine List.map_congr_left fun test _ => ?_
  induction items with
  | nil => rfl
  | cons item rest ih =>
      rw [List.map_cons, List.sum_cons, ih, List.countP_cons, Nat.add_comm]
      rfl

theorem countP_eq_add {p q r : α → Bool} {items : List α}
    (each : ∀ item ∈ items, one (p item) = one (q item) + one (r item)) :
    items.countP p = items.countP q + items.countP r := by
  induction items with
  | nil => rfl
  | cons item rest ih =>
      have first := each item List.mem_cons_self
      have others := ih fun other member => each other (List.mem_cons_of_mem item member)
      simp only [List.countP_cons, one] at first ⊢
      omega

theorem countP_le_add {p q r : α → Bool} {items : List α}
    (each : ∀ item ∈ items, one (p item) ≤ one (q item) + one (r item)) :
    items.countP p ≤ items.countP q + items.countP r := by
  induction items with
  | nil => rfl
  | cons item rest ih =>
      have first := each item List.mem_cons_self
      have others := ih fun other member => each other (List.mem_cons_of_mem item member)
      simp only [List.countP_cons, one] at first ⊢
      omega

/-- Tests of which every item passes exactly one count every item once. -/
theorem sum_countP_of_one {tests : List (α → Bool)} {items : List α}
    (each : ∀ item ∈ items, (tests.map fun test => one (test item)).sum = 1) :
    (tests.map fun test => items.countP test).sum = items.length := by
  induction items with
  | nil => simp
  | cons item rest ih =>
      have others := ih fun other member => each other (List.mem_cons_of_mem item member)
      have split : (tests.map fun test => (item :: rest).countP test) =
          tests.map fun test => rest.countP test + one (test item) :=
        List.map_congr_left fun test _ => List.countP_cons
      rw [split, List.sum_map_add, others, each item List.mem_cons_self, List.length_cons]

end Tests

/-! ## The tests of the three schemes -/

variable (a : Architecture) (i : Instruction) (b : Block)

def discovreTests : List (Instruction → Bool) :=
  [fun i => a.has .call i.mnemonic,
    fun i => !a.has .call i.mnemonic && a.has .transfer i.mnemonic,
    fun i => !a.has .call i.mnemonic && !a.has .transfer i.mnemonic && a.has .arithmetic i.mnemonic,
    fun _ => true, fun i => mentions i ", 0x", fun i => mentions i " str."]

def dgisTests : List (Instruction → Bool) :=
  (List.range 8).map fun k i => k == dgisClass a i

def tiknibTests : List (Instruction → Bool) :=
  [fun i => a.has .arithmetic i.mnemonic || a.has .shift i.mnemonic,
    fun i => a.has .compare i.mnemonic || a.has .floatCompare i.mnemonic,
    fun i => a.has .controlTransfer i.mnemonic,
    fun i => a.has .controlTransfer i.mnemonic || a.has .conditionalTransfer i.mnemonic,
    fun i => a.has .transfer i.mnemonic || a.has .floatTransfer i.mnemonic,
    fun i => a.has .floatTransfer i.mnemonic || a.has .floatCompare i.mnemonic ||
      a.has .floatArithmetic i.mnemonic,
    fun _ => true]

theorem discovreCounts_eq :
    discovreCounts a b = (discovreTests a).map fun test => b.validInstructions.countP test :=
  sumRows_tests (discovreTests a) b.validInstructions

theorem dgisCounts_eq :
    dgisCounts a b = (dgisTests a).map fun test => b.validInstructions.countP test :=
  sumRows_tests (dgisTests a) b.validInstructions

theorem tiknibCounts_eq :
    tiknibCounts a b = (tiknibTests a).map fun test => b.validInstructions.countP test :=
  sumRows_tests (tiknibTests a) b.validInstructions

theorem dgisClass_lt : dgisClass a i < 8 := by
  unfold dgisClass
  grind

/-- The class of an instruction is the place of its exclusive group; only a call may go to the last
class instead. -/
theorem beq_dgisClass {k : Nat} {g : OpcodeGroup} (place : exclusiveGroups[k]? = some g)
    (other : g ≠ .call) : (k == dgisClass a i) = a.has g i.mnemonic := by
  have apart := has_pairwise a i.mnemonic
  simp only [exclusiveGroups, List.pairwise_cons, List.forall_mem_cons, List.not_mem_nil] at apart
  have short := (List.getElem?_eq_some_iff.mp place).1
  change k < 7 at short
  unfold dgisClass
  interval_cases k <;> cases place <;> first | exact absurd rfl other | grind

theorem has_controlTransfer :
    a.has .controlTransfer i.mnemonic =
      (a.has .call i.mnemonic || a.has .unconditional i.mnemonic) := by
  simp [Architecture.has, Opcodes.group]

theorem has_logic_of_shift (here : a.has .shift i.mnemonic = true) :
    a.has .logic i.mnemonic = true := by
  rw [has_eq_true] at here ⊢
  exact List.mem_append_right _ here

theorem has_compare_of_floatCompare (here : a.has .floatCompare i.mnemonic = true) :
    a.has .compare i.mnemonic = true := by
  rw [has_eq_true] at here ⊢
  exact List.mem_append_right _ here

/-! ## One instruction in two schemes -/

/-- No call and no transfer is arithmetic. -/
theorem arithmetic_agrees :
    (!a.has .call i.mnemonic && !a.has .transfer i.mnemonic && a.has .arithmetic i.mnemonic) =
      (1 == dgisClass a i) := by
  rw [beq_dgisClass a i (k := 1) rfl (by decide)]
  cases here : a.has .arithmetic i.mnemonic with
  | false => exact Bool.and_false _
  | true =>
      have call := has_later (h := .call) (by decide) here
      have transfer := arithmetic_not_transfer a i.mnemonic (has_eq_true.mp here)
      rw [call, has_eq_false.mpr transfer]
      rfl

theorem compare_agrees :
    (3 == dgisClass a i) = (a.has .compare i.mnemonic || a.has .floatCompare i.mnemonic) := by
  rw [beq_dgisClass a i (k := 3) rfl (by decide)]
  cases here : a.has .floatCompare i.mnemonic with
  | false => exact (Bool.or_false _).symm
  | true => rw [has_compare_of_floatCompare a i here, Bool.or_true]

theorem controlTransfer_agrees :
    one (a.has .controlTransfer i.mnemonic) =
      one (a.has .call i.mnemonic) + one (5 == dgisClass a i) := by
  rw [beq_dgisClass a i (k := 5) rfl (by decide), has_controlTransfer]
  cases here : a.has .call i.mnemonic with
  | false => exact (Nat.zero_add _).symm
  | true => rw [has_later (h := .unconditional) (by decide) here]; rfl

theorem conditionalTransfer_agrees :
    one (a.has .controlTransfer i.mnemonic || a.has .conditionalTransfer i.mnemonic) =
      one (a.has .controlTransfer i.mnemonic) + one (6 == dgisClass a i) := by
  rw [beq_dgisClass a i (k := 6) rfl (by decide)]
  change one (_ || a.has .conditional i.mnemonic) = _
  cases here : a.has .controlTransfer i.mnemonic with
  | false => exact (Nat.zero_add _).symm
  | true =>
      rw [has_controlTransfer, Bool.or_eq_true] at here
      have apart : a.has .conditional i.mnemonic = false :=
        here.elim (has_later (by decide)) (has_later (by decide))
      rw [apart]
      rfl

theorem call_of_library (library : (4 == dgisClass a i) = true) :
    a.has .call i.mnemonic = true := by
  unfold dgisClass at library
  grind

theorem arithmeticShift_agrees :
    one (a.has .arithmetic i.mnemonic || a.has .shift i.mnemonic) ≤
      one (1 == dgisClass a i) + one (2 == dgisClass a i) := by
  rw [beq_dgisClass a i (k := 1) rfl (by decide), beq_dgisClass a i (k := 2) rfl (by decide)]
  cases shift : a.has .shift i.mnemonic with
  | false => rw [Bool.or_false]; exact Nat.le_add_right _ _
  | true => rw [has_logic_of_shift a i shift, Bool.or_true]; exact Nat.le_add_left _ _

/-! ## Fields by name -/

def fieldCount (scheme : Scheme) (field : String) : Nat :=
  (((scheme.fields?.getD []).zip ((counts? scheme a b).getD [])).lookup field).getD 0

theorem map_lookup_zip {names : List String} {counts : List Nat} (distinct : names.Nodup)
    (same : names.length = counts.length) :
    (names.map fun name => ((names.zip counts).lookup name).getD 0) = counts := by
  induction names generalizing counts with
  | nil => exact (List.length_eq_zero_iff.mp same.symm).symm
  | cons name rest ih =>
      cases counts with
      | nil => cases same
      | cons count more =>
          obtain ⟨fresh, others⟩ := List.nodup_cons.mp distinct
          have later : ∀ other ∈ rest,
              (((name, count) :: rest.zip more).lookup other).getD 0 =
                ((rest.zip more).lookup other).getD 0 := by
            intro other member
            have different : (other == name) = false :=
              beq_false_of_ne fun equal => fresh (equal ▸ member)
            rw [List.lookup_cons, different]
          rw [List.map_cons, List.zip_cons_cons, List.lookup_cons_self, List.map_congr_left later,
            ih others (Nat.succ.inj same)]
          rfl

theorem map_fieldCount {scheme : Scheme} {names : List String} {counts : List Nat}
    (fields : scheme.fields? = some names) (found : counts? scheme a b = some counts)
    (distinct : names.Nodup) (same : names.length = counts.length) :
    names.map (fieldCount a b scheme) = counts := by
  unfold fieldCount
  rw [fields, found]
  exact map_lookup_zip distinct same

theorem map_fieldCount_gemini : geminiFields.map (fieldCount a b .gemini) = geminiCounts a b := by
  refine map_fieldCount a b rfl rfl (by decide) ?_
  rw [geminiCounts, discovreCounts_eq]
  rfl

theorem map_fieldCount_dgis : dgisFields.map (fieldCount a b .dgis) = dgisCounts a b := by
  refine map_fieldCount a b rfl rfl (by decide) ?_
  rw [dgisCounts_eq]
  rfl

theorem map_fieldCount_tiknib : tiknibFields.map (fieldCount a b .tiknib) = tiknibCounts a b := by
  refine map_fieldCount a b rfl rfl (by decide) ?_
  rw [tiknibCounts_eq]
  rfl

/-- The vector of a block holds the counts in its fields. -/
theorem vectorOf_eq {scheme : Scheme} {names : List String} {counts : List Nat}
    (found : counts? scheme a b = some counts)
    (each : names.map (fieldCount a b scheme) = counts) :
    vectorOf scheme a b =
      pure ⟨scheme, names.map fun field => Binary64.ofNat (fieldCount a b scheme field)⟩ := by
  have values : (names.map fun field => Binary64.ofNat (fieldCount a b scheme field)) =
      counts.map Binary64.ofNat := by
    rw [← each, List.map_map]
    rfl
  unfold vectorOf
  rw [found, values]

variable {a b}

theorem fieldCount_gemini {k : Nat} {field : String} {test : Instruction → Bool}
    (name : discovreFields[k]? = some field) (tested : (discovreTests a)[k]? = some test) :
    fieldCount a b .gemini field = b.validInstructions.countP test := by
  have each := map_fieldCount_gemini a b
  rw [geminiCounts, geminiFields, discovreCounts_eq, List.map_append] at each
  have counts := (List.append_inj each rfl).1
  have at_k := congrArg (fun values => values[k]?) counts
  simpa only [List.getElem?_map, name, tested, Option.map_some, Option.some.injEq] using at_k

theorem fieldCount_dgis {k : Nat} {field : String} (name : dgisFields[k]? = some field) :
    fieldCount a b .dgis field = b.validInstructions.countP fun i => k == dgisClass a i := by
  have each := map_fieldCount_dgis a b
  have inside := (List.getElem?_eq_some_iff.mp name).1
  change k < 8 at inside
  rw [dgisCounts_eq] at each
  have at_k := congrArg (fun values => values[k]?) each
  simpa only [dgisTests, List.getElem?_map, name, List.getElem?_range inside, Option.map_some,
    Option.some.injEq] using at_k

theorem fieldCount_tiknib {k : Nat} {field : String} {test : Instruction → Bool}
    (name : tiknibFields[k]? = some field) (tested : (tiknibTests a)[k]? = some test) :
    fieldCount a b .tiknib field = b.validInstructions.countP test := by
  have each := map_fieldCount_tiknib a b
  rw [tiknibCounts_eq] at each
  have at_k := congrArg (fun values => values[k]?) each
  simpa only [List.getElem?_map, name, tested, Option.map_some, Option.some.injEq] using at_k

/-- Every valid instruction is in exactly one class of the DGIS scheme. -/
theorem sum_dgis :
    (dgisFields.map (fieldCount a b .dgis)).sum = b.validInstructions.length := by
  rw [map_fieldCount_dgis, dgisCounts_eq]
  refine sum_countP_of_one fun i _ => ?_
  have once : ∀ c < 8, ((List.range 8).map fun k => one (k == c)).sum = 1 := by decide
  rw [dgisTests, List.map_map]
  exact once _ (dgisClass_lt a i)

/-- The counting schemes agree with each other: what two of them count alike is counted alike, and
the fields of one add up to fields of another. -/
theorem counts_agree (a : Architecture) (b : Block) :
    let gemini := fieldCount a b .gemini
    let dgis := fieldCount a b .dgis
    let tiknib := fieldCount a b .tiknib
    let valid := b.instructions.filter fun i => i.kind != "invalid"
    (vectorOf .gemini a b = pure ⟨.gemini, geminiFields.map (Binary64.ofNat ∘ gemini)⟩ ∧
      vectorOf .dgis a b = pure ⟨.dgis, dgisFields.map (Binary64.ofNat ∘ dgis)⟩ ∧
      vectorOf .tiknib a b = pure ⟨.tiknib, tiknibFields.map (Binary64.ofNat ∘ tiknib)⟩) ∧
    (gemini "numIns" = valid.length ∧ tiknib "total" = valid.length ∧
      (dgisFields.map dgis).sum = valid.length) ∧
    gemini "numArith" = dgis "numArithOps" ∧
    dgis "numCmpOps" = tiknib "compare" ∧
    tiknib "ctransfer" = gemini "numCalls" + dgis "numUnconJumps" ∧
    tiknib "ctransfercond" = tiknib "ctransfer" + dgis "numConJumps" ∧
    dgis "numLibCalls" ≤ gemini "numCalls" ∧
    gemini "numTransfer" ≤ tiknib "dtransfer" ∧
    dgis "numArithOps" ≤ tiknib "arithshift" ∧
    tiknib "arithshift" ≤ dgis "numArithOps" + dgis "numLogicOps" := by
  intro gemini dgis tiknib valid
  have numCalls : gemini "numCalls" = _ := fieldCount_gemini (k := 0) rfl rfl
  have numTransfer : gemini "numTransfer" = _ := fieldCount_gemini (k := 1) rfl rfl
  have numArith : gemini "numArith" = _ := fieldCount_gemini (k := 2) rfl rfl
  have numIns : gemini "numIns" = _ := fieldCount_gemini (k := 3) rfl rfl
  have numArithOps : dgis "numArithOps" = _ := fieldCount_dgis (k := 1) rfl
  have numLogicOps : dgis "numLogicOps" = _ := fieldCount_dgis (k := 2) rfl
  have numCmpOps : dgis "numCmpOps" = _ := fieldCount_dgis (k := 3) rfl
  have numLibCalls : dgis "numLibCalls" = _ := fieldCount_dgis (k := 4) rfl
  have numUnconJumps : dgis "numUnconJumps" = _ := fieldCount_dgis (k := 5) rfl
  have numConJumps : dgis "numConJumps" = _ := fieldCount_dgis (k := 6) rfl
  have arithshift : tiknib "arithshift" = _ := fieldCount_tiknib (k := 0) rfl rfl
  have compare : tiknib "compare" = _ := fieldCount_tiknib (k := 1) rfl rfl
  have ctransfer : tiknib "ctransfer" = _ := fieldCount_tiknib (k := 2) rfl rfl
  have ctransfercond : tiknib "ctransfercond" = _ := fieldCount_tiknib (k := 3) rfl rfl
  have dtransfer : tiknib "dtransfer" = _ := fieldCount_tiknib (k := 4) rfl rfl
  have total : tiknib "total" = _ := fieldCount_tiknib (k := 6) rfl rfl
  refine ⟨⟨?_, ?_, ?_⟩, ⟨?_, ?_, sum_dgis⟩, ?_, ?_, ?_, ?_, ?_, ?_, ?_, ?_⟩
  · exact vectorOf_eq a b rfl (map_fieldCount_gemini a b)
  · exact vectorOf_eq a b rfl (map_fieldCount_dgis a b)
  · exact vectorOf_eq a b rfl (map_fieldCount_tiknib a b)
  · rw [numIns]
    exact congrFun List.countP_true _
  · rw [total]
    exact congrFun List.countP_true _
  · rw [numArith, numArithOps]
    exact List.countP_congr fun i _ => by rw [arithmetic_agrees]
  · rw [numCmpOps, compare]
    exact List.countP_congr fun i _ => by rw [compare_agrees]
  · rw [ctransfer, numCalls, numUnconJumps]
    exact countP_eq_add fun i _ => controlTransfer_agrees a i
  · rw [ctransfercond, ctransfer, numConJumps]
    exact countP_eq_add fun i _ => conditionalTransfer_agrees a i
  · rw [numLibCalls, numCalls]
    exact List.countP_mono_left fun i _ => call_of_library a i
  · rw [numTransfer, dtransfer]
    exact List.countP_mono_left fun i _ => by grind
  · rw [numArithOps, arithshift]
    refine List.countP_mono_left fun i _ here => ?_
    rw [beq_dgisClass a i (k := 1) rfl (by decide)] at here
    exact Bool.or_eq_true_iff.mpr (.inl here)
  · rw [arithshift, numArithOps, numLogicOps]
    exact countP_le_add fun i _ => arithmeticShift_agrees a i

end FlowCorpus.Feature
