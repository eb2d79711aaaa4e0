import FlowCorpus.Proofs.Exchange.Alignment
import FlowCorpus.Proofs.Graph.DepthFirst

/-!
# Lines along walks

The instruction text along walks through a function. There is one walk from every node of its
graph, each the beginning of a depth-first search, and a walk has the lines of the blocks at which
it comes by: of the first block that starts at the address of a node, and none at a node where no
block starts.
-/

set_option autoImplicit false

namespace FlowCorpus.Feature

open FlowCorpus.Exchange.Attributed FlowCorpus.Graph FlowCorpus.Outcome FlowCorpus.Program

def Contributes (scheme : Scheme) (maskRegisters : Bool) (f : Function) (flow : Flow) (node : Nat)
    (lines : List String) : Prop :=
  ∃ address, flow.index.addresses[node]? = some address ∧
    ((∃ b, StartsFirst f address b ∧ blockLines (.ok scheme) maskRegisters b = .ok lines) ∨
      ((∀ b ∈ f.blocks, b.offset ≠ address) ∧ lines = []))

variable {scheme : Scheme}

theorem succeeds_instructionLine (textual : scheme.isTextual = true) (maskRegisters : Bool)
    (i : Instruction) : Succeeds (instructionLine scheme maskRegisters i) := by
  cases scheme <;> first | exact ⟨_, rfl⟩ | cases textual

theorem succeeds_blockLines (textual : scheme.isTextual = true) (maskRegisters : Bool) (b : Block) :
    Succeeds (blockLines (.ok scheme) maskRegisters b) := by
  refine succeeds_bind.mpr ⟨scheme, rfl, (succeeds_bind_and fun _ => ?_).mpr ⟨?_, trivial⟩⟩
  · exact iff_true_intro (succeeds_pure _)
  · exact succeeds_mapM.mpr fun i _ => succeeds_instructionLine textual maskRegisters i

theorem blocksLines_nil (maskRegisters : Bool) :
    blocksLines (.ok scheme) maskRegisters [] = .ok [] := rfl

theorem blocksLines_cons {maskRegisters : Bool} {b : Block} {rest : List Block}
    {lines more : List String} (first : blockLines (.ok scheme) maskRegisters b = .ok lines)
    (others : blocksLines (.ok scheme) maskRegisters rest = .ok more) :
    blocksLines (.ok scheme) maskRegisters (b :: rest) = .ok (lines ++ more) := by
  unfold blocksLines at others ⊢
  obtain ⟨rows, each, joined⟩ := bind_ok others
  cases joined
  rw [List.mapM_cons, first, each]
  rfl

/-- The lines of the blocks at some nodes are those that the nodes add, one after the other. -/
theorem blocksLines_contributes (textual : scheme.isTextual = true) (maskRegisters : Bool)
    (f : Function) (flow : Flow) {nodes : List Nat}
    (inside : ∀ node ∈ nodes, node < flow.nodeCount) :
    ∃ pieces, List.Forall₂ (Contributes scheme maskRegisters f flow) nodes pieces ∧
      blocksLines (.ok scheme) maskRegisters (nodes.filterMap fun (node : Nat) =>
        (flow.index.addressOf? (node : Int)).bind f.blockAt?) = .ok pieces.flatten := by
  induction nodes with
  | nil => exact ⟨[], .nil, blocksLines_nil maskRegisters⟩
  | cons node rest ih =>
      obtain ⟨pieces, added, others⟩ := ih fun other member =>
        inside other (List.mem_cons_of_mem node member)
      obtain ⟨address, placed⟩ : ∃ address, flow.index.addresses[node]? = some address :=
        ⟨_, List.getElem?_eq_getElem (inside node List.mem_cons_self)⟩
      have stands : (flow.index.addressOf? (node : Int)).bind f.blockAt? = f.blockAt? address := by
        rw [AddressIndex.addressOf?_natCast, placed, Option.bind_some]
      cases found : f.blockAt? address with
      | none =>
          refine ⟨[] :: pieces,
            .cons ⟨address, placed, .inr ⟨blockAt?_eq_none_iff.mp found, rfl⟩⟩ added, ?_⟩
          simp only [List.filterMap_cons, stands, found]
          exact others
      | some b =>
          obtain ⟨lines, own⟩ := succeeds_blockLines textual maskRegisters b
          have first := startsFirst_of_blockAt? found
          refine ⟨lines :: pieces, .cons ⟨address, placed, .inl ⟨b, first, own⟩⟩ added, ?_⟩
          simp only [List.filterMap_cons, stands, found]
          exact blocksLines_cons own others

/-- The lines along a walk are those that its nodes add. -/
theorem walkLines_contributes (textual : scheme.isTextual = true) (maskRegisters pairs : Bool)
    (f : Function) {flow : Flow} (closed : flow.Closed) (length : Int) {start : Nat}
    (inside : start < flow.nodeCount) :
    ∃ nodes pieces, flow.Walks length start nodes ∧
      List.Forall₂ (Contributes scheme maskRegisters f flow) nodes pieces ∧
      walkLines (.ok scheme) maskRegisters pairs f flow length start =
        .ok (if pairs then pairsOf pieces.flatten else pieces.flatten) := by
  have walks := Flow.walks_walk closed inside length
  obtain ⟨order, search, _, early⟩ := walks.initial
  obtain ⟨pieces, added, lines⟩ := blocksLines_contributes textual maskRegisters f flow
    fun node member => search.inside closed inside node (early.subset member)
  refine ⟨_, pieces, walks, added, ?_⟩
  unfold walkLines walkBlocks
  rw [lines]
  rfl

/-- There is a walk from every node of a function that has more blocks than are asked for, and every
walk has the lines of its nodes; nothing is reported. -/
theorem randomWalks_depthFirst (textual : scheme.isTextual = true) {f : Function} {minBlocks : Int}
    (enough : minBlocks < f.blocks.length) {flow : Flow}
    (built : Flow.build f minBlocks = some flow) (maskRegisters pairs : Bool) (length : Int) :
    ∃ walks,
      (randomWalks (.ok scheme) minBlocks maskRegisters pairs length f).run =
        (.ok (some walks), []) ∧
      walks.length = flow.nodeCount ∧
      ∀ start < flow.nodeCount, ∃ nodes pieces, flow.Walks length start nodes ∧
        List.Forall₂ (Contributes scheme maskRegisters f flow) nodes pieces ∧
        walks[start]? = some (if pairs then pairsOf pieces.flatten else pieces.flatten) := by
  have each (start : Nat) (inside : start < flow.nodeCount) :=
    walkLines_contributes textual maskRegisters pairs f (Flow.closed_build built) length inside
  obtain ⟨walks, collected⟩ : Succeeds ((List.range flow.nodeCount).mapM
      (walkLines (.ok scheme) maskRegisters pairs f flow length)) := by
    refine succeeds_mapM.mpr fun start member => ?_
    obtain ⟨_, _, _, _, lines⟩ := each start (List.mem_range.mp member)
    exact ⟨_, lines⟩
  have steps := mapM_ok collected
  refine ⟨walks, ?_, by simpa using steps.length_eq.symm, fun start inside => ?_⟩
  · unfold randomWalks Flow.buildReporting
    rw [if_neg (by omega), built]
    change (Traced.ofExcept ((List.range flow.nodeCount).mapM _) >>= fun walks =>
      pure (some walks)).run = _
    rw [collected]
    rfl
  · obtain ⟨nodes, pieces, walked, added, lines⟩ := each start inside
    obtain ⟨walk, stands, same⟩ := getElem?_of_forall₂ steps (List.getElem?_range inside)
    rw [lines] at same
    cases same
    exact ⟨nodes, pieces, walked, added, stands⟩

/-- A function with a loop, two nodes at which no block starts, and two blocks at one address. -/
def roundabout : Function where
  name := "roundabout"
  offset := 16
  size := some 48
  blocks := [
    { offset := 16, jump := 32, fail := 16, switch := some { cases := [⟨4096, 16, "0"⟩] },
      instructions := [{ offset := 16, kind := "cmp", disasm := some "cmp" }] },
    { offset := 32, jump := 16, fail := 48,
      instructions := [{ offset := 32, kind := "mov", disasm := some "mov" }] },
    { offset := 32, instructions := [{ offset := 32, kind := "ret", disasm := some "ret" }] }]

theorem randomWalks_roundabout :
    Scheme.disasm.isTextual = true ∧ (2 : Int) < roundabout.blocks.length ∧
    ∃ flow walks, Flow.build roundabout 2 = some flow ∧
      (randomWalks (.ok .disasm) 2 false false 3 roundabout).run = (.ok (some walks), []) ∧
      walks.length = 4 ∧
      ∃ nodes pieces, flow.Walks 3 0 nodes ∧
        List.Forall₂ (Contributes .disasm false roundabout flow) nodes pieces ∧
        walks[0]? = some pieces.flatten := by
  have textual : Scheme.disasm.isTextual = true := rfl
  have enough : (2 : Int) < roundabout.blocks.length := by decide
  obtain ⟨flow, built⟩ : ∃ flow, Flow.build roundabout 2 = some flow := ⟨_, rfl⟩
  obtain ⟨walks, ran, counted, each⟩ := randomWalks_depthFirst textual enough built false false 3
  have nodes : flow.nodeCount = 4 := by
    cases built
    decide
  exact ⟨textual, enough, flow, walks, built, ran, counted.trans nodes, each 0 (by omega)⟩

example : (Flow.build roundabout 2).map (fun flow => flow.walk 3 0) = some [0, 1, 3] := by decide

end FlowCorpus.Feature
