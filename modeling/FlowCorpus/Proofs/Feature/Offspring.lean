import Mathlib.Algebra.Order.BigOperators.Group.List
import FlowCorpus.Proofs.Feature.Agreement
import FlowCorpus.Proofs.Graph.Transfer

/-!
# Offspring and edges

The offspring of a block is counted from its targets as they stand, and its edges are those targets
that the control flow keeps. What the flow drops is accounted for: jumps and fall-throughs that lead
out of the function, cases without a target, and the targets of blocks outside the function.
-/

set_option autoImplicit false

namespace FlowCorpus.Feature

open FlowCorpus.Assembly FlowCorpus.Graph FlowCorpus.Graph.Flow FlowCorpus.Program

/-- The jump and the fall-through of a block, if they lead out of the function. -/
def strayTargets (f : Function) (b : Block) : List Int :=
  [b.jump, b.fail].filter fun target => target ≠ noAddress ∧ ¬ Inside f target

def unplacedCases (b : Block) : List SwitchCase :=
  b.switchCases.filter fun c => c.jump = noAddress

structure AllKept (f : Function) (b : Block) : Prop where
  start : 0 < offspring b → Inside f b.offset
  jump : b.jump ≠ noAddress → Inside f b.jump
  fail : b.fail ≠ noAddress → Inside f b.fail
  cases : ∀ c ∈ b.switchCases, c.jump ≠ noAddress

/-! ## One block -/

theorem fieldCount_numOffspring (a : Architecture) (b : Block) :
    fieldCount a b .gemini "numOffspring" = offspring b := by
  have counts := map_fieldCount_gemini a b
  rw [geminiFields, geminiCounts, List.map_append] at counts
  have last := (List.append_inj' counts rfl).2
  simpa using last

variable {f : Function} {b : Block}

theorem length_switchTargets (b : Block) :
    b.switchCases.length = (switchTargets b).length + (unplacedCases b).length := by
  rw [List.length_eq_length_filter_add fun c : SwitchCase => decide (c.jump ≠ noAddress)]
  simp [switchTargets, unplacedCases, List.filter_map, Function.comp_def]

/-- Every target that counts as offspring is kept, is a stray one, or is a case without one. -/
theorem offspring_eq_exits (jump : b.jump ≠ 0) (fail : b.fail ≠ 0) :
    offspring b = (exits f b).length + (strayTargets f b).length + (unplacedCases b).length := by
  have present (target : Int) (nonzero : target ≠ 0) (kind : EdgeKind) :
      one (target != noAddress && target != 0) =
        (if Inside f target then [(target, kind)] else []).length +
          ([target].filter fun t => t ≠ noAddress ∧ ¬ Inside f t).length := by
    by_cases inside : Inside f target
    · simp [one, inside, inside.1, nonzero]
    · by_cases absent : target = noAddress
      · subst absent
        simp [one, inside]
      · simp [one, inside, absent, nonzero]
  have both : (strayTargets f b).length =
      ([b.jump].filter fun t => t ≠ noAddress ∧ ¬ Inside f t).length +
        ([b.fail].filter fun t => t ≠ noAddress ∧ ¬ Inside f t).length := by
    rw [← List.length_append, ← List.filter_append]
    rfl
  have kept : (exits f b).length =
      (if Inside f b.jump then [(b.jump, EdgeKind.jump)] else []).length +
        (if Inside f b.fail then [(b.fail, EdgeKind.fail)] else []).length +
        (switchTargets b).length := by
    simp only [exits, List.length_append, List.length_map]
  have jumps := present b.jump jump .jump
  have falls := present b.fail fail .fail
  have switches := length_switchTargets b
  unfold offspring
  omega

/-- A block has as many edges as transfers of control, whatever addresses were numbered before. -/
theorem length_blockEdges (f : Function) (b : Block) (index : AddressIndex) :
    (blockEdges b f.offset f.upperBound index).1.length = (transfersFrom f b).length := by
  have stand := blockEdges_transfers f b index.numbers_addresses List.prefix_rfl
  simpa using congrArg List.length stand

theorem length_transfersFrom (inside : Inside f b.offset) :
    (transfersFrom f b).length = (exits f b).length := by
  rw [transfersFrom, if_pos inside, List.length_map]

theorem transfersFrom_le_offspring (jump : b.jump ≠ 0) (fail : b.fail ≠ 0) :
    (transfersFrom f b).length ≤ offspring b := by
  by_cases inside : Inside f b.offset
  · rw [length_transfersFrom inside, offspring_eq_exits jump fail, add_assoc]
    exact Nat.le_add_right _ _
  · rw [transfersFrom, if_neg inside]
    exact Nat.zero_le _

theorem strayTargets_eq_nil_iff : strayTargets f b = [] ↔
    (b.jump ≠ noAddress → Inside f b.jump) ∧ (b.fail ≠ noAddress → Inside f b.fail) := by
  simp [strayTargets, List.filter_eq_nil_iff]

theorem unplacedCases_eq_nil_iff :
    unplacedCases b = [] ↔ ∀ c ∈ b.switchCases, c.jump ≠ noAddress := by
  simp [unplacedCases, List.filter_eq_nil_iff]

theorem offspring_eq_zero_iff (jump : b.jump ≠ 0) (fail : b.fail ≠ 0) :
    offspring b = 0 ↔ (b.fail = noAddress ∧ b.jump = noAddress) ∧ b.switchCases = [] := by
  have falls : one (b.fail != noAddress && b.fail != 0) = 0 ↔ b.fail = noAddress := by
    simp [one, fail]
  have jumps : one (b.jump != noAddress && b.jump != 0) = 0 ↔ b.jump = noAddress := by
    simp [one, jump]
  rw [offspring, Nat.add_eq_zero_iff, Nat.add_eq_zero_iff, falls, jumps, List.length_eq_zero_iff]

theorem transfersFrom_eq_offspring_iff (jump : b.jump ≠ 0) (fail : b.fail ≠ 0) :
    (transfersFrom f b).length = offspring b ↔ AllKept f b := by
  by_cases inside : Inside f b.offset
  · have none : (transfersFrom f b).length = offspring b ↔
        strayTargets f b = [] ∧ unplacedCases b = [] := by
      rw [length_transfersFrom inside, offspring_eq_exits (f := f) jump fail,
        ← List.length_eq_zero_iff, ← List.length_eq_zero_iff]
      omega
    rw [none, strayTargets_eq_nil_iff, unplacedCases_eq_nil_iff]
    constructor
    · rintro ⟨⟨jumps, falls⟩, placed⟩
      exact ⟨fun _ => inside, jumps, falls, placed⟩
    · rintro ⟨-, jumps, falls, placed⟩
      exact ⟨⟨jumps, falls⟩, placed⟩
  · -- A block outside the function has no edges, so that it must not have offspring either.
    rw [transfersFrom, if_neg inside, List.length_nil, eq_comm]
    constructor
    · intro childless
      obtain ⟨⟨noFail, noJump⟩, noCases⟩ := (offspring_eq_zero_iff jump fail).mp childless
      exact ⟨fun some => absurd childless some.ne', fun here => absurd noJump here,
        fun here => absurd noFail here, by simp [noCases]⟩
    · intro kept
      by_contra some
      exact inside (kept.start (Nat.pos_of_ne_zero some))

/-! ## The whole function -/

section Sums

variable {α : Type} {g h : α → Nat}

theorem sum_eq_sum_iff {items : List α} (each : ∀ item ∈ items, g item ≤ h item) :
    (items.map g).sum = (items.map h).sum ↔ ∀ item ∈ items, g item = h item := by
  induction items with
  | nil => simp
  | cons item rest ih =>
      rw [List.forall_mem_cons] at each ⊢
      obtain ⟨first, others⟩ := each
      have total : (rest.map g).sum ≤ (rest.map h).sum := List.sum_le_sum others
      rw [← ih others, List.map_cons, List.map_cons, List.sum_cons, List.sum_cons]
      omega

end Sums

theorem length_edges {minBlocks : Int} {flow : Flow} (built : build f minBlocks = some flow) :
    flow.edges.length = (f.blocks.map fun b => (transfersFrom f b).length).sum := by
  have stand := congrArg List.length (transfers_build built)
  rw [List.length_map, List.length_map] at stand
  rw [stand, transfers, List.length_flatMap]

/-- The offspring of a block inside its function is its edges together with what its control flow
drops. A function has no more edges than offspring, and as many just when nothing is dropped. -/
theorem offspring_accounts {minBlocks : Int} {flow : Flow}
    (built : build f minBlocks = some flow) :
    (∀ b ∈ f.blocks, Inside f b.offset → b.jump ≠ 0 → b.fail ≠ 0 →
      ∀ (a : Architecture) (index : AddressIndex),
        fieldCount a b .gemini "numOffspring" =
          (blockEdges b f.offset f.upperBound index).1.length + (strayTargets f b).length +
            (unplacedCases b).length) ∧
    ((∀ b ∈ f.blocks, b.jump ≠ 0 ∧ b.fail ≠ 0) →
      flow.edges.length ≤ (f.blocks.map offspring).sum ∧
      (flow.edges.length = (f.blocks.map offspring).sum ↔ ∀ b ∈ f.blocks, AllKept f b)) := by
  constructor
  · intro b _ inside jump fail a index
    rw [fieldCount_numOffspring, length_blockEdges, length_transfersFrom inside]
    exact offspring_eq_exits jump fail
  · intro nonzero
    have each : ∀ b ∈ f.blocks, (transfersFrom f b).length ≤ offspring b := fun b member =>
      transfersFrom_le_offspring (nonzero b member).1 (nonzero b member).2
    rw [length_edges built]
    refine ⟨List.sum_le_sum each, (sum_eq_sum_iff each).trans ?_⟩
    exact forall₂_congr fun b member =>
      transfersFrom_eq_offspring_iff (nonzero b member).1 (nonzero b member).2

/-- The first block of this function has a case without a target, and its second one starts outside
its bounds. -/
theorem offspring_accounts_switching :
    ∃ flow, build switching 3 = some flow ∧
      (∃ b ∈ switching.blocks, Inside switching b.offset ∧ b.jump ≠ 0 ∧ b.fail ≠ 0 ∧
        fieldCount .x86 b .gemini "numOffspring" = 4 + 0 + 1) ∧
      (∀ b ∈ switching.blocks, b.jump ≠ 0 ∧ b.fail ≠ 0) ∧
      flow.edges.length = 5 ∧ (switching.blocks.map offspring).sum = 8 ∧
      ¬ ∀ b ∈ switching.blocks, AllKept switching b := by
  obtain ⟨flow, built⟩ : ∃ flow, build switching 3 = some flow := ⟨_, rfl⟩
  have nonzero : ∀ b ∈ switching.blocks, b.jump ≠ 0 ∧ b.fail ≠ 0 := by decide
  have edges : flow.edges.length = 5 := by
    cases built
    decide
  have ways : (switching.blocks.map offspring).sum = 8 := by decide
  obtain ⟨single, whole⟩ := offspring_accounts built
  refine ⟨flow, built, ?_, nonzero, edges, ways, fun kept => ?_⟩
  · have first : switching.blocks[0] ∈ switching.blocks := List.getElem_mem _
    have inside : Inside switching switching.blocks[0].offset := by decide
    obtain ⟨jump, fail⟩ := nonzero _ first
    exact ⟨_, first, inside, jump, fail,
      (single _ first inside jump fail .x86 .empty).trans (by decide)⟩
  · have equal := (whole nonzero).2.mpr kept
    rw [edges, ways] at equal
    cases equal

end FlowCorpus.Feature
