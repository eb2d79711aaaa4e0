import FlowCorpus.Proofs.Exchange.Alignment
import FlowCorpus.Proofs.Graph.Relocation

/-!
# Graphs of moved functions

The counts of a block do not depend on where it is, and nodes that are labelled by their numbers do
not show their addresses. So a function that is moved as a whole has the same graph in the exchange
format. Only the Gemini scheme looks at a target itself: it takes zero for none, so that there zero
must not come or go.
-/

set_option autoImplicit false

namespace FlowCorpus.Feature

open FlowCorpus.Assembly FlowCorpus.Graph FlowCorpus.Number FlowCorpus.Program

variable {distance : Int}

/-! ## Counts -/

/-- The targets of a block other than those of its switch are not zero. -/
def NoZeroTarget (b : Block) : Prop :=
  b.jump ≠ 0 ∧ b.fail ≠ 0

instance (b : Block) : Decidable (NoZeroTarget b) :=
  inferInstanceAs (Decidable (b.jump ≠ 0 ∧ b.fail ≠ 0))

theorem map_validInstructions_moved {α : Type} (row : Instruction → α)
    (same : ∀ i, row (i.moved distance) = row i) (b : Block) :
    (b.moved distance).validInstructions.map row = b.validInstructions.map row := by
  unfold Block.validInstructions
  change ((b.instructions.map (Instruction.moved distance)).filter _).map row = _
  rw [List.filter_map, List.map_map]
  exact List.map_congr_left fun i _ => same i

theorem offspring_moved {b : Block} (jump : NoneOrStays distance b.jump)
    (fail : NoneOrStays distance b.fail) (before : NoZeroTarget b)
    (after : NoZeroTarget (b.moved distance)) : offspring (b.moved distance) = offspring b := by
  have counted {address : Int} (able : NoneOrStays distance address) (before : address ≠ 0)
      (after : movedAddress distance address ≠ 0) :
      one (movedAddress distance address != noAddress && movedAddress distance address != 0) =
        one (address != noAddress && address != 0) := by
    congr 1
    rw [Bool.eq_iff_iff]
    simp [movedAddress_eq_noAddress_iff able, before, after]
  unfold offspring
  rw [switchCases_moved, List.length_map]
  exact congrArg₂ (· + · + _) (counted fail before.2 after.2) (counted jump before.1 after.1)

/-- The counts of a block are those of the block at another place. -/
theorem counts?_moved {scheme : Scheme} {b : Block}
    (unseen : scheme = .gemini → offspring (b.moved distance) = offspring b) (a : Architecture) :
    counts? scheme a (b.moved distance) = counts? scheme a b := by
  have discovre : discovreCounts a (b.moved distance) = discovreCounts a b :=
    congrArg (sumRows 6) (map_validInstructions_moved _ (fun _ => rfl) b)
  have dgis : dgisCounts a (b.moved distance) = dgisCounts a b :=
    congrArg (sumRows 8) (map_validInstructions_moved _ (fun _ => rfl) b)
  have tiknib : tiknibCounts a (b.moved distance) = tiknibCounts a b :=
    congrArg (sumRows 7) (map_validInstructions_moved _ (fun _ => rfl) b)
  cases scheme with
  | gemini => simp only [counts?, geminiCounts, discovre, unseen rfl]
  | discovre => simp only [counts?, discovre]
  | dgis => simp only [counts?, dgis]
  | tiknib => simp only [counts?, tiknib]
  | disasm | esil | embedded | encoded => rfl

/-! ## Features of nodes -/

theorem isSome_counts? {scheme : Scheme} (counting : scheme.isCounting = true) (a : Architecture)
    (b : Block) : ∃ counts, counts? scheme a b = some counts := by
  cases scheme <;> first | exact ⟨_, rfl⟩ | cases counting

theorem blockFeature_moved {options : FeatureOptions}
    (counting : options.scheme.isCounting = true) {b : Block}
    (unseen : options.scheme = .gemini → offspring (b.moved distance) = offspring b)
    (architecture : Option Architecture) :
    blockFeature architecture options (b.moved distance) = blockFeature architecture options b := by
  unfold blockFeature
  rw [if_pos counting, if_pos counting]
  cases architecture with
  | none => rfl
  | some a =>
      obtain ⟨counts, counted⟩ := isSome_counts? counting a b
      simp only [vectorOf, counts?_moved unseen a, counted]

theorem find?_moved {blocks : List Block} (starts : ∀ b ∈ blocks, Stays distance b.offset)
    (address : Int) :
    (blocks.map (Block.moved distance)).find? (fun b => b.offset == address + distance) =
      (blocks.find? fun b => b.offset == address).map (Block.moved distance) := by
  induction blocks with
  | nil => rfl
  | cons b rest ih =>
      have others := ih fun other member => starts other (List.mem_cons_of_mem b member)
      have start : (b.moved distance).offset = b.offset + distance :=
        (starts b List.mem_cons_self).moved_eq
      have same : (b.offset + distance == address + distance) = (b.offset == address) := by
        rw [Bool.eq_iff_iff]
        simp
      rw [List.map_cons, List.find?_cons, List.find?_cons, others, start, same]
      cases b.offset == address <;> rfl

theorem blockAt?_moved {f : Function} (movable : f.Movable distance) (address : Int) :
    (f.moved distance).blockAt? (address + distance) =
      (f.blockAt? address).map (Block.moved distance) :=
  find?_moved movable.starts address

theorem featuresAt_moved {f : Function} (movable : f.Movable distance) {options : FeatureOptions}
    (counting : options.scheme.isCounting = true)
    (unseen : options.scheme = .gemini →
      ∀ b ∈ f.blocks, offspring (b.moved distance) = offspring b)
    (architecture : Option Architecture) (addresses : List Int) :
    featuresAt architecture options (f.moved distance) (addresses.map (· + distance)) =
      featuresAt architecture options f addresses := by
  induction addresses with
  | nil => rfl
  | cons address rest ih =>
      rw [List.map_cons]
      unfold featuresAt
      rw [blockAt?_moved movable]
      cases found : f.blockAt? address with
      | none => exact ih
      | some b =>
          have member : b ∈ f.blocks := List.mem_of_find?_eq_some found
          simp only [Option.map_some, ih,
            blockFeature_moved counting (fun gemini => unseen gemini b member) architecture]

end FlowCorpus.Feature

namespace FlowCorpus.Exchange.Attributed

open FlowCorpus.Assembly FlowCorpus.Feature FlowCorpus.Graph FlowCorpus.Program

/-- The graph of a function with the features of its nodes, unless it has none. -/
def ofFunction (architecture : Option Architecture) (options : FeatureOptions) (mode : NodeLabel)
    (f : Function) (flow : Flow) : Traced (Option Attributed) := do
  match ← nodeFeatures architecture options f flow with
  | none => return none
  | some features => ofFeatures flow (some features) (some options.scheme) mode

variable {distance : Int}

theorem nodeCount_moved (flow : Flow) : (flow.moved distance).nodeCount = flow.nodeCount := by
  simp [Flow.nodeCount, AddressIndex.size, Flow.moved, AddressIndex.moved]

theorem labels_moved (flow : Flow) :
    labels (flow.moved distance) .index = labels flow .index := by
  refine List.ext_getElem? fun id => ?_
  simp only [labels, Flow.moved, AddressIndex.moved, NodeLabel.label, List.getElem?_mapIdx,
    List.getElem?_map, Option.map_map]
  rfl

theorem ofFlow_moved (flow : Flow) (names nodes : List Json.Value) :
    ofFlow (flow.moved distance) names nodes = ofFlow flow names nodes := by
  unfold ofFlow
  rw [nodeCount_moved]
  rfl

theorem ofFeatures_moved (flow : Flow) (features : Option (List NodeFeature))
    (scheme : Option Scheme) :
    ofFeatures (flow.moved distance) features scheme .index =
      ofFeatures flow features scheme .index := by
  have name : (flow.moved distance).function = flow.function := rfl
  unfold ofFeatures
  simp only [labels_moved, nodeCount_moved, ofFlow_moved, name]

/-- A scheme of counts that do not show at which addresses a function is. -/
def Unplaced (scheme : Scheme) (f : Function) (distance : Int) : Prop :=
  scheme = .discovre ∨ scheme = .dgis ∨ scheme = .tiknib ∨
    (scheme = .gemini ∧ (∀ b ∈ f.blocks, NoZeroTarget b) ∧
      ∀ b ∈ (f.moved distance).blocks, NoZeroTarget b)

theorem Unplaced.isCounting {scheme : Scheme} {f : Function}
    (unplaced : Unplaced scheme f distance) : scheme.isCounting = true := by
  rcases unplaced with rfl | rfl | rfl | ⟨rfl, _⟩ <;> rfl

theorem Unplaced.offspring_moved {scheme : Scheme} {f : Function} (movable : f.Movable distance)
    (unplaced : Unplaced scheme f distance) (gemini : scheme = .gemini) {b : Block}
    (member : b ∈ f.blocks) : offspring (b.moved distance) = offspring b := by
  subst gemini
  obtain other | other | other | ⟨_, before, after⟩ := unplaced
  · cases other
  · cases other
  · cases other
  · exact Feature.offspring_moved (movable.jumps b member) (movable.fails b member)
      (before b member) (after _ (List.mem_map_of_mem member))

/-- A function that is moved as a whole has the same edges between the same numbers, every address
of its flow is moved, and its graph is the same in every scheme that does not show addresses. -/
theorem ofFunction_moved {f : Function} (movable : f.Movable distance) (minBlocks : Int) :
    Flow.build (f.moved distance) minBlocks = (Flow.build f minBlocks).map (Flow.moved distance) ∧
    ∀ flow, Flow.build f minBlocks = some flow →
      ∀ architecture options, Unplaced options.scheme f distance →
        ofFunction architecture options .index (f.moved distance) (flow.moved distance) =
          ofFunction architecture options .index f flow := by
  refine ⟨Flow.build_moved movable minBlocks, fun flow _ architecture options unplaced => ?_⟩
  have features : nodeFeatures architecture options (f.moved distance) (flow.moved distance) =
      nodeFeatures architecture options f flow :=
    featuresAt_moved movable unplaced.isCounting
      (fun gemini b member => unplaced.offspring_moved movable gemini member) architecture _
  unfold ofFunction
  simp only [features, ofFeatures_moved]

theorem ofFunction_moved_revisited :
    revisited.Movable (-8) ∧ Unplaced .gemini revisited (-8) ∧
    ∃ flow, Flow.build revisited 1 = some flow ∧
      Flow.build (revisited.moved (-8)) 1 = some (flow.moved (-8)) ∧
      (flow.moved (-8)).index.addresses = [24, 8] ∧
      ofFunction (some .x86) { scheme := .gemini } .index (revisited.moved (-8)) (flow.moved (-8)) =
        ofFunction (some .x86) { scheme := .gemini } .index revisited flow := by
  have movable : revisited.Movable (-8) :=
    ⟨by decide, by decide, by decide, by decide, by decide, by decide, by decide⟩
  have unplaced : Unplaced .gemini revisited (-8) :=
    .inr (.inr (.inr ⟨rfl, by decide, by decide⟩))
  have built : Flow.build revisited 1 = some _ := rfl
  obtain ⟨moved, same⟩ := ofFunction_moved movable 1
  exact ⟨movable, unplaced, _, built, by rw [moved, built]; rfl, by decide,
    same _ built (some .x86) { scheme := .gemini } unplaced⟩

end FlowCorpus.Exchange.Attributed
