import FlowCorpus.Feature.Summary
import FlowCorpus.Proofs.Feature.Agreement
import FlowCorpus.Proofs.Number.Exact

/-!
# Counts of instructions put together

Apart from the number of offspring, every count is a number of instructions, wherever these stand.
Counts of blocks add up when their instructions are put together, so the sums over a function do not
depend on how it is split into blocks.
-/

set_option autoImplicit false

namespace FlowCorpus.Feature

open FlowCorpus.Assembly FlowCorpus.Json FlowCorpus.Number FlowCorpus.Program FlowCorpus.Text

def instructionsOf (f : Function) : List Instruction :=
  f.blocks.flatMap fun b => b.instructions

def fieldSum (a : Architecture) (f : Function) (field : String) : Nat :=
  (f.blocks.map fun b => fieldCount a b .tiknib field).sum

/-- The average of a TikNib count over the blocks of a function, zero without blocks. -/
def fieldAverage (a : Architecture) (f : Function) (field : String) : ℚ :=
  fieldSum a f field / f.blocks.length

variable {a : Architecture} {scheme : Scheme} {names : List String} {field : String}

/-! ## Blocks -/

theorem map_fieldCount_discovre (a : Architecture) (b : Block) :
    discovreFields.map (fieldCount a b .discovre) = discovreCounts a b := by
  refine map_fieldCount a b rfl rfl (by decide) ?_
  rw [discovreCounts_eq]
  rfl

theorem vectorOf_named (known : scheme.fields? = some names) (a : Architecture) (b : Block) :
    vectorOf scheme a b =
      pure ⟨scheme, names.map fun field => Binary64.ofNat (fieldCount a b scheme field)⟩ := by
  cases scheme <;> cases known
  · exact vectorOf_eq a b rfl (map_fieldCount_gemini a b)
  · exact vectorOf_eq a b rfl (map_fieldCount_discovre a b)
  · exact vectorOf_eq a b rfl (map_fieldCount_dgis a b)
  · exact vectorOf_eq a b rfl (map_fieldCount_tiknib a b)

theorem exists_test_of_map (tests : List (Instruction → Bool))
    (same : names.length = tests.length)
    (each : ∀ b, names.map (fieldCount a b scheme) =
      tests.map fun test => b.validInstructions.countP test) (member : field ∈ names) :
    ∃ test : Instruction → Bool, ∀ b, fieldCount a b scheme field =
      b.validInstructions.countP test := by
  obtain ⟨k, name⟩ := List.mem_iff_getElem?.mp member
  have inside : k < tests.length := same ▸ (List.getElem?_eq_some_iff.mp name).1
  refine ⟨tests[k], fun b => ?_⟩
  have at_k := congrArg (fun values => values[k]?) (each b)
  simpa only [List.getElem?_map, name, List.getElem?_eq_getElem inside, Option.map_some,
    Option.some.injEq] using at_k

/-- Every field but the number of offspring counts the valid instructions that pass a test. -/
theorem exists_test (known : scheme.fields? = some names) (a : Architecture)
    (member : field ∈ names) (other : field ≠ "numOffspring") :
    ∃ test : Instruction → Bool, ∀ b, fieldCount a b scheme field =
      b.validInstructions.countP test := by
  cases scheme <;> cases known
  · -- Only the last field of this scheme is not counted instruction by instruction.
    have counted : field ∈ discovreFields :=
      (List.mem_append.mp member).resolve_right fun last => other (List.mem_singleton.mp last)
    refine exists_test_of_map (discovreTests a) rfl (fun b => ?_) counted
    have each := map_fieldCount_gemini a b
    rw [geminiCounts, geminiFields, discovreCounts_eq, List.map_append] at each
    exact (List.append_inj each rfl).1
  · exact exists_test_of_map (discovreTests a) rfl
      (fun b => (map_fieldCount_discovre a b).trans (discovreCounts_eq a b)) member
  · exact exists_test_of_map (dgisTests a) rfl
      (fun b => (map_fieldCount_dgis a b).trans (dgisCounts_eq a b)) member
  · exact exists_test_of_map (tiknibTests a) rfl
      (fun b => (map_fieldCount_tiknib a b).trans (tiknibCounts_eq a b)) member

theorem fieldCount_append (known : scheme.fields? = some names) (a : Architecture)
    (member : field ∈ names) (other : field ≠ "numOffspring") {b c d : Block}
    (joined : b.instructions = c.instructions ++ d.instructions) :
    fieldCount a b scheme field = fieldCount a c scheme field + fieldCount a d scheme field := by
  obtain ⟨test, counted⟩ := exists_test known a member other
  rw [counted, counted, counted, Block.validInstructions, joined, List.filter_append,
    List.countP_append]
  rfl

theorem fieldCount_perm (known : scheme.fields? = some names) (a : Architecture)
    (member : field ∈ names) (other : field ≠ "numOffspring") {b c : Block}
    (same : b.instructions.Perm c.instructions) :
    fieldCount a b scheme field = fieldCount a c scheme field := by
  obtain ⟨test, counted⟩ := exists_test known a member other
  rw [counted, counted]
  exact (same.filter _).countP_eq test

/-! ## Functions -/

theorem exists_tiknibTest (a : Architecture) (member : field ∈ tiknibFields) :
    ∃ test : Instruction → Bool, ∀ b, fieldCount a b .tiknib field =
      b.validInstructions.countP test := by
  have absent : "numOffspring" ∉ tiknibFields := by decide
  have known : Scheme.tiknib.fields? = some tiknibFields := rfl
  exact exists_test known a member fun equal => absent (equal ▸ member)

/-- The sum over the blocks of a function is the count of one block with all its instructions. -/
theorem fieldSum_eq (a : Architecture) (f : Function) (member : field ∈ tiknibFields)
    (merged : Block) (same : merged.instructions.Perm (instructionsOf f)) :
    fieldSum a f field = fieldCount a merged .tiknib field := by
  obtain ⟨test, counted⟩ := exists_tiknibTest a member
  calc fieldSum a f field
      = (f.blocks.map fun b => b.validInstructions.countP test).sum := by
        simp only [fieldSum, counted]
    _ = (f.blocks.flatMap fun b => b.validInstructions).countP test :=
        List.countP_flatMap.symm
    _ = ((instructionsOf f).filter fun i => !i.isInvalid).countP test := by
        rw [instructionsOf, List.filter_flatMap]
        rfl
    _ = fieldCount a merged .tiknib field := by
        rw [counted]
        exact ((same.filter _).countP_eq test).symm

theorem fieldSum_le_length (a : Architecture) (f : Function) (member : field ∈ tiknibFields) :
    fieldSum a f field ≤ (instructionsOf f).length := by
  obtain ⟨test, counted⟩ := exists_tiknibTest a member
  rw [fieldSum_eq a f member { offset := 0, instructions := instructionsOf f } .rfl, counted]
  exact List.countP_le_length.trans (List.length_filter_le _ _)

theorem summarySums_eq (a : Architecture) (f : Function) :
    summarySums a f = tiknibFields.map (fieldSum a f) := by
  have rows : f.blocks.map (tiknibCounts a) =
      f.blocks.map fun b => tiknibFields.map (fieldCount a b .tiknib) :=
    List.map_congr_left fun b _ => (map_fieldCount_tiknib a b).symm
  rw [summarySums, rows]
  exact sumRows_map tiknibFields (fun b => fieldCount a b .tiknib) f.blocks

theorem markedFields_map (mark : String) (value : String → Binary64) :
    markedFields mark (tiknibFields.map value) =
      tiknibFields.map fun field => (.whole (mark ++ field), .float (value field)) := rfl

theorem averagesOf_eq (a : Architecture) (f : Function) :
    averagesOf (tiknibFields.map (fieldSum a f)) f.blocks.length =
      tiknibFields.map fun field => Binary64.ofRat (fieldAverage a f field) := by
  rw [averagesOf, List.map_map]
  refine List.map_congr_left fun field _ => ?_
  rw [Function.comp, fieldAverage]
  split
  · rename_i none
    rw [none, Nat.cast_zero, div_zero]
    rfl
  · rename_i some
    exact (Binary64.ofRat_div _ (Nat.pos_of_ne_zero some)).symm

theorem summary_eq (a : Architecture) (f : Function) :
    summary a f = .obj [("name", .str f.name), ("features", .obj (
      (tiknibFields.map fun field =>
        (LooseText.whole ("avg_" ++ field), Value.float (.ofRat (fieldAverage a f field)))) ++
      tiknibFields.map fun field =>
        (LooseText.whole ("sum_" ++ field), Value.float (.ofNat (fieldSum a f field)))))] := by
  rw [summary, summarySums_eq, averagesOf_eq, List.map_map, markedFields_map, markedFields_map]
  rfl

theorem fieldSum_of_no_blocks (a : Architecture) {f : Function} (none : f.blocks.length = 0)
    (field : String) : fieldSum a f field = 0 := by
  rw [fieldSum, List.eq_nil_of_length_eq_zero none]
  rfl

theorem fieldAverage_mul (a : Architecture) (f : Function) (field : String) :
    fieldAverage a f field * f.blocks.length = fieldSum a f field := by
  unfold fieldAverage
  rcases Nat.eq_zero_or_pos f.blocks.length with none | some
  · rw [fieldSum_of_no_blocks a none, none, Nat.cast_zero, mul_zero]
  · exact div_mul_cancel₀ _ (by exact_mod_cast some.ne')

/-- The double of an average, times the number of blocks, is the sum up to the error of one
rounding. -/
theorem fieldAverage_near (a : Architecture) (f : Function) (field : String)
    (few : f.blocks.length < 2 ^ 53) (small : fieldSum a f field < 2 ^ 53) :
    |(Binary64.ofRat (fieldAverage a f field)).toRat * f.blocks.length - fieldSum a f field| ≤
      fieldSum a f field / 2 ^ 53 := by
  rcases Nat.eq_zero_or_pos f.blocks.length with none | proper
  · rw [fieldSum_of_no_blocks a none, none, Nat.cast_zero, mul_zero, sub_zero, abs_zero, zero_div]
  have blocks : (0 : ℚ) < f.blocks.length := by exact_mod_cast proper
  have near := Binary64.toRat_ofRatio_near proper small few
  rw [← Binary64.ofRat_div _ proper] at near
  calc |(Binary64.ofRat (fieldAverage a f field)).toRat * f.blocks.length - fieldSum a f field|
      = |(Binary64.ofRat (fieldAverage a f field)).toRat - fieldAverage a f field| *
          f.blocks.length := by
        rw [← fieldAverage_mul a f field, ← sub_mul, abs_mul, abs_of_pos blocks]
    _ ≤ fieldAverage a f field / 2 ^ 53 * f.blocks.length := by
        gcongr
        exact near
    _ = fieldSum a f field / 2 ^ 53 := by
        rw [div_mul_eq_mul_div, fieldAverage_mul]

/-- Every count of a scheme but the number of offspring adds up over instructions that are put
together and does not depend on their order. The summary of a function has the sums and averages of
the TikNib counts over its blocks, which are those of one block with all instructions; doubles keep
sums below `2 ^ 53` and round averages once. -/
theorem counts_additive (a : Architecture) :
    (∀ scheme names, Scheme.fields? scheme = some names → ∀ b : Block,
      vectorOf scheme a b =
        pure ⟨scheme, names.map fun field => Binary64.ofNat (fieldCount a b scheme field)⟩ ∧
      ∀ field ∈ names, field ≠ "numOffspring" →
        (∀ c d : Block, b.instructions = c.instructions ++ d.instructions →
          fieldCount a b scheme field =
            fieldCount a c scheme field + fieldCount a d scheme field) ∧
        ∀ c : Block, b.instructions.Perm c.instructions →
          fieldCount a b scheme field = fieldCount a c scheme field) ∧
    (∀ f : Function,
      summary a f = .obj [("name", .str f.name), ("features", .obj (
        (tiknibFields.map fun field =>
          (LooseText.whole ("avg_" ++ field), Value.float (.ofRat (fieldAverage a f field)))) ++
        tiknibFields.map fun field =>
          (LooseText.whole ("sum_" ++ field), Value.float (.ofNat (fieldSum a f field)))))] ∧
      ∀ field ∈ tiknibFields,
        fieldAverage a f field * f.blocks.length = fieldSum a f field ∧
        (f.blocks = [] → fieldSum a f field = 0 ∧ fieldAverage a f field = 0) ∧
        (∀ merged : Block, merged.instructions.Perm (instructionsOf f) →
          fieldSum a f field = fieldCount a merged .tiknib field) ∧
        (∀ g : Function, (instructionsOf g).Perm (instructionsOf f) →
          fieldSum a g field = fieldSum a f field) ∧
        ((instructionsOf f).length < 2 ^ 53 → f.blocks.length < 2 ^ 53 →
          (Binary64.ofNat (fieldSum a f field)).toRat = fieldSum a f field ∧
          |(Binary64.ofRat (fieldAverage a f field)).toRat * f.blocks.length -
            fieldSum a f field| ≤ fieldSum a f field / 2 ^ 53)) ∧
    ∀ n < 2 ^ 53, (Binary64.ofNat n).toRat = n := by
  refine ⟨fun scheme names known b => ⟨vectorOf_named known a b, ?_⟩,
    fun f => ⟨summary_eq a f, ?_⟩, fun n small => Binary64.toRat_ofNat small⟩
  · intro field member other
    exact ⟨fun c d => fieldCount_append known a member other,
      fun c => fieldCount_perm known a member other⟩
  · intro field member
    refine ⟨fieldAverage_mul a f field, ?_, fieldSum_eq a f member, ?_, ?_⟩
    · intro none
      have length : f.blocks.length = 0 := congrArg List.length none
      have sum := fieldSum_of_no_blocks a length field
      exact ⟨sum, by rw [fieldAverage, sum, Nat.cast_zero, zero_div]⟩
    · intro g same
      let merged : Block := { offset := 0, instructions := instructionsOf g }
      exact (fieldSum_eq a g member merged .rfl).trans (fieldSum_eq a f member merged same).symm
    · intro short few
      have small := (fieldSum_le_length a f member).trans_lt short
      exact ⟨Binary64.toRat_ofNat small, fieldAverage_near a f field few small⟩

/-- Two blocks with a call and an instruction that does not count. -/
def calling : Function where
  name := "calling"
  offset := 16
  blocks := [
    { offset := 16,
      instructions := [{ offset := 16, kind := "mov", disasm := some "mov eax, 0x10" }] },
    { offset := 32, instructions := [{ offset := 32, kind := "call", disasm := some "call 0x40" },
      { offset := 36, kind := "invalid", disasm := some "invalid" }] }]

def backwards (f : Function) : Block :=
  { offset := f.offset, instructions := (instructionsOf f).reverse }

theorem counts_additive_calling :
    (backwards calling).instructions.Perm (instructionsOf calling) ∧
      (instructionsOf calling).length < 2 ^ 53 ∧ calling.blocks.length < 2 ^ 53 ∧
      fieldSum .x86 calling "ctransfer" =
        fieldCount .x86 (backwards calling) .tiknib "ctransfer" ∧
      fieldAverage .x86 calling "total" * 2 = 2 ∧
      (Binary64.ofNat (fieldSum .x86 calling "total")).toRat = 2 ∧
      ∀ b c : Block, b.instructions = [] ++ c.instructions →
        fieldCount .x86 b .gemini "numIns" =
          fieldCount .x86 { offset := 0 } .gemini "numIns" +
            fieldCount .x86 c .gemini "numIns" := by
  obtain ⟨blocks, functions, -⟩ := counts_additive .x86
  have reversed : (backwards calling).instructions.Perm (instructionsOf calling) :=
    List.reverse_perm _
  obtain ⟨-, -, merged, -, -⟩ := (functions calling).2 "ctransfer" (by decide)
  obtain ⟨average, -, -, -, exact⟩ := (functions calling).2 "total" (by decide)
  have total : fieldSum .x86 calling "total" = 2 := by decide +kernel
  rw [total] at average exact ⊢
  refine ⟨reversed, by decide, by decide, merged _ reversed, by exact_mod_cast average, ?_, ?_⟩
  · exact_mod_cast (exact (by decide) (by decide)).1
  · intro b c joined
    exact ((blocks .gemini geminiFields rfl b).2 "numIns" (by decide) (by decide)).1 _ c joined

end FlowCorpus.Feature
