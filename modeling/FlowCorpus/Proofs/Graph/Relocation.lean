import FlowCorpus.Proofs.Graph.Transfer
import Mathlib.Algebra.Group.Basic
import Mathlib.Algebra.Group.Int.Defs
import Mathlib.Data.List.Induction
import Mathlib.Data.List.Nodup

/-!
# Functions at another place

A function all of whose addresses are moved by one distance. Its flow is the same flow, with every
address moved: bounds and targets move together, so the same addresses come up in the same order and
get the same numbers, and the same transfers become the same edges.
-/

set_option autoImplicit false

namespace FlowCorpus.Program

def movedAddress (distance address : Int) : Int :=
  if address = noAddress then noAddress else address + distance

def Instruction.moved (distance : Int) (i : Instruction) : Instruction :=
  { i with offset := movedAddress distance i.offset }

def SwitchCase.moved (distance : Int) (c : SwitchCase) : SwitchCase :=
  { c with jump := movedAddress distance c.jump, offset := movedAddress distance c.offset }

def SwitchTable.moved (distance : Int) (table : SwitchTable) : SwitchTable :=
  { table with
    offset := movedAddress distance table.offset
    cases := table.cases.map (SwitchCase.moved distance) }

def Block.moved (distance : Int) (b : Block) : Block :=
  { b with
    offset := movedAddress distance b.offset
    jump := movedAddress distance b.jump
    fail := movedAddress distance b.fail
    instructions := b.instructions.map (Instruction.moved distance)
    switch := b.switch.map (SwitchTable.moved distance) }

def Function.moved (distance : Int) (f : Function) : Function :=
  { f with
    offset := movedAddress distance f.offset
    blocks := f.blocks.map (Block.moved distance) }

def Stays (distance address : Int) : Prop :=
  0 ≤ address ∧ 0 ≤ address + distance

instance (distance address : Int) : Decidable (Stays distance address) :=
  inferInstanceAs (Decidable (0 ≤ address ∧ 0 ≤ address + distance))

def NoneOrStays (distance address : Int) : Prop :=
  address = noAddress ∨ Stays distance address

instance (distance address : Int) : Decidable (NoneOrStays distance address) :=
  inferInstanceAs (Decidable (address = noAddress ∨ Stays distance address))

/-- A function whose addresses can be moved by a distance: all of them stay addresses, and the first
block does not look unanalysed at either place. -/
structure Function.Movable (f : Function) (distance : Int) : Prop where
  offset : Stays distance f.offset
  starts : ∀ b ∈ f.blocks, Stays distance b.offset
  jumps : ∀ b ∈ f.blocks, NoneOrStays distance b.jump
  fails : ∀ b ∈ f.blocks, NoneOrStays distance b.fail
  cases : ∀ b ∈ f.blocks, ∀ c ∈ b.switchCases, NoneOrStays distance c.jump
  analysed : f.blocks.head?.map Block.offset ≠ some 1
  analysedMoved : (f.moved distance).blocks.head?.map Block.offset ≠ some 1

variable {distance : Int}

theorem movedAddress_noAddress : movedAddress distance noAddress = noAddress := if_pos rfl

theorem Stays.ne_noAddress {address : Int} (stays : Stays distance address) :
    address ≠ noAddress := by
  have := stays.1
  unfold noAddress
  omega

theorem Stays.moved_eq {address : Int} (stays : Stays distance address) :
    movedAddress distance address = address + distance := if_neg stays.ne_noAddress

theorem Stays.moved_ne_noAddress {address : Int} (stays : Stays distance address) :
    movedAddress distance address ≠ noAddress := by
  have := stays.2
  rw [stays.moved_eq]
  unfold noAddress
  omega

theorem movedAddress_eq_noAddress_iff {address : Int} (able : NoneOrStays distance address) :
    movedAddress distance address = noAddress ↔ address = noAddress := by
  rcases able with rfl | stays
  · simp [movedAddress_noAddress]
  · simp [stays.moved_ne_noAddress, stays.ne_noAddress]

theorem switchCases_moved (b : Block) :
    (b.moved distance).switchCases = b.switchCases.map (SwitchCase.moved distance) := by
  unfold Block.switchCases Block.moved
  cases b.switch <;> rfl

theorem Block.endAddress_moved {b : Block} (stays : Stays distance b.offset) :
    (b.moved distance).endAddress = b.endAddress + distance := by
  simp only [Block.endAddress, Block.moved, stays.moved_eq]
  omega

theorem furthestEnd_moved {blocks : List Block} (starts : ∀ b ∈ blocks, Stays distance b.offset)
    (first : Int) :
    Function.furthestEnd (first + distance) (blocks.map (Block.moved distance)) =
      Function.furthestEnd first blocks + distance := by
  induction blocks generalizing first with
  | nil => rfl
  | cons b rest ih =>
      have further : max (first + distance) (b.moved distance).endAddress =
          max first b.endAddress + distance := by
        rw [Block.endAddress_moved (starts b List.mem_cons_self)]
        omega
      have others := ih (fun other member => starts other (List.mem_cons_of_mem b member))
        (max first b.endAddress)
      simp only [Function.furthestEnd, List.map_cons, List.foldl_cons] at others ⊢
      rw [further, others]

theorem Function.Movable.upperBound_moved {f : Function} (movable : f.Movable distance) :
    (f.moved distance).upperBound = f.upperBound + distance := by
  have start := movable.offset.moved_eq
  cases size : f.size with
  | some length =>
      simp only [Function.upperBound, Function.moved, start, size]
      omega
  | none =>
      cases blocks : f.blocks with
      | nil => simp [Function.upperBound, Function.moved, start, size, blocks]
      | cons b rest =>
          have starts := movable.starts
          rw [blocks] at starts
          have first := Block.endAddress_moved (starts b List.mem_cons_self)
          simp only [Function.upperBound, Function.moved, size, blocks, List.map_cons, first]
          exact furthestEnd_moved
            (fun other member => starts other (List.mem_cons_of_mem b member)) _

end FlowCorpus.Program

namespace FlowCorpus.Graph

open FlowCorpus.Program

def AddressIndex.moved (distance : Int) (index : AddressIndex) : AddressIndex where
  addresses := index.addresses.map (· + distance)
  ids := index.ids.map (Prod.map (· + distance) id)
  nodup := index.nodup.map (add_left_injective distance)
  entries := by rw [index.entries, List.zipIdx_map]

def Flow.moved (distance : Int) (flow : Flow) : Flow :=
  { flow with index := flow.index.moved distance }

def Transfer.moved (distance : Int) (t : Transfer) : Transfer :=
  ⟨t.source + distance, t.target + distance, t.kind⟩

variable {f : Function} {distance : Int}

/-! ## Transfers -/

theorem inside_moved (movable : f.Movable distance) {address : Int}
    (able : NoneOrStays distance address) :
    Inside (f.moved distance) (movedAddress distance address) ↔ Inside f address := by
  unfold Inside
  rw [movable.upperBound_moved, ne_eq, movedAddress_eq_noAddress_iff able]
  refine and_congr_right fun present => ?_
  have start := movable.offset.moved_eq
  have here := (able.resolve_left present).moved_eq
  simp only [Function.moved, start, here]
  omega

theorem filter_moved {chosen chosenMoved : Int → Prop} [DecidablePred chosen]
    [DecidablePred chosenMoved] {addresses : List Int}
    (able : ∀ address ∈ addresses, NoneOrStays distance address)
    (present : ∀ address, chosen address → address ≠ noAddress)
    (same : ∀ address, NoneOrStays distance address →
      (chosenMoved (movedAddress distance address) ↔ chosen address)) :
    (addresses.map (movedAddress distance)).filter (chosenMoved ·) =
      (addresses.filter (chosen ·)).map (· + distance) := by
  induction addresses with
  | nil => rfl
  | cons address rest ih =>
      have here := able address List.mem_cons_self
      have others := ih fun other member => able other (List.mem_cons_of_mem address member)
      rw [List.map_cons, List.filter_cons, List.filter_cons, others]
      simp only [same address here]
      by_cases picked : chosen address
      · simp [picked, (here.resolve_left (present address picked)).moved_eq]
      · simp [picked]

theorem switchTargets_moved {b : Block}
    (able : ∀ c ∈ b.switchCases, NoneOrStays distance c.jump) :
    switchTargets (b.moved distance) = (switchTargets b).map (· + distance) := by
  have jumps : (b.moved distance).switchCases.map SwitchCase.jump =
      (b.switchCases.map SwitchCase.jump).map (movedAddress distance) := by
    rw [switchCases_moved, List.map_map, List.map_map]
    rfl
  unfold switchTargets
  rw [jumps]
  exact filter_moved (by simpa using able) (fun _ present => present) fun _ able =>
    not_congr (movedAddress_eq_noAddress_iff able)

theorem visitedBy_moved (movable : f.Movable distance) {b : Block} (member : b ∈ f.blocks) :
    visitedBy (f.moved distance) (b.moved distance) = (visitedBy f b).map (· + distance) := by
  have start : NoneOrStays distance b.offset := .inr (movable.starts b member)
  have own : [(b.moved distance).offset, (b.moved distance).jump, (b.moved distance).fail] =
      [b.offset, b.jump, b.fail].map (movedAddress distance) := rfl
  have able : ∀ address ∈ [b.offset, b.jump, b.fail], NoneOrStays distance address := by
    simp [start, movable.jumps b member, movable.fails b member]
  have begins : Inside (f.moved distance) (b.moved distance).offset ↔ Inside f b.offset :=
    inside_moved movable start
  unfold visitedBy
  rw [own, filter_moved able (fun _ inside => inside.1) fun _ => inside_moved movable,
    switchTargets_moved (movable.cases b member), List.map_append]
  simp only [begins]
  split <;> rfl

theorem visited_moved (movable : f.Movable distance) :
    visited (f.moved distance) = (visited f).map (· + distance) := by
  unfold visited
  rw [List.map_flatMap, Function.moved, List.flatMap_map]
  exact List.flatMap_congr fun b member => visitedBy_moved movable member

theorem exits_moved (movable : f.Movable distance) {b : Block} (member : b ∈ f.blocks) :
    exits (f.moved distance) (b.moved distance) =
      (exits f b).map fun exit => (exit.1 + distance, exit.2) := by
  have single (address : Int) (kind : EdgeKind) (able : NoneOrStays distance address) :
      (if Inside (f.moved distance) (movedAddress distance address)
        then [(movedAddress distance address, kind)] else []) =
      (if Inside f address then [(address, kind)] else []).map
        fun exit => (exit.1 + distance, exit.2) := by
    simp only [inside_moved movable able]
    split
    · rename_i inside
      rw [(able.resolve_left inside.1).moved_eq]
      rfl
    · rfl
  have jump := single b.jump .jump (movable.jumps b member)
  have fail := single b.fail .fail (movable.fails b member)
  unfold exits
  rw [List.map_append, List.map_append, ← jump, ← fail,
    switchTargets_moved (movable.cases b member), List.map_map, List.map_map]
  rfl

theorem transfersFrom_moved (movable : f.Movable distance) {b : Block} (member : b ∈ f.blocks) :
    transfersFrom (f.moved distance) (b.moved distance) =
      (transfersFrom f b).map (Transfer.moved distance) := by
  have stays := movable.starts b member
  have begins : Inside (f.moved distance) (b.moved distance).offset ↔ Inside f b.offset :=
    inside_moved movable (.inr stays)
  have start : (b.moved distance).offset = b.offset + distance := stays.moved_eq
  unfold transfersFrom
  simp only [begins]
  rw [exits_moved movable member, start, List.map_map]
  split
  · rw [List.map_map]
    rfl
  · rfl

theorem transfers_moved (movable : f.Movable distance) :
    transfers (f.moved distance) = (transfers f).map (Transfer.moved distance) := by
  unfold transfers
  rw [List.map_flatMap, Function.moved, List.flatMap_map]
  exact List.flatMap_congr fun b member => transfersFrom_moved movable member

/-! ## Numbers -/

theorem eraseDups_map_of_injective {g : Int → Int} (injective : g.Injective) (met : List Int) :
    (met.map g).eraseDups = met.eraseDups.map g := by
  induction met using List.reverseRecOn with
  | nil => rfl
  | append_singleton met address ih =>
      rw [List.map_append, List.map_singleton, AddressIndex.eraseDups_concat,
        AddressIndex.eraseDups_concat, ih]
      simp only [List.mem_map_of_injective injective]
      split <;> simp

theorem transfer?_moved (index : AddressIndex) (e : Edge) :
    (index.moved distance).transfer? e = (index.transfer? e).map (Transfer.moved distance) := by
  unfold AddressIndex.transfer? AddressIndex.moved
  simp only [List.getElem?_map]
  cases index.addresses[e.source]? <;> cases index.addresses[e.target]? <;> rfl

/-- A transfer is that of one edge only, as no address has two numbers. -/
theorem edge_eq_of_transfer? {index : AddressIndex} {e other : Edge} {t : Transfer}
    (stands : index.transfer? e = some t) (same : index.transfer? other = some t) : e = other := by
  obtain ⟨source, target, kind⟩ := AddressIndex.transfer?_eq_some_iff.mp stands
  obtain ⟨source', target', kind'⟩ := AddressIndex.transfer?_eq_some_iff.mp same
  have unique {id number : Nat} {address : Int} (first : index.addresses[id]? = some address)
      (second : index.addresses[number]? = some address) : id = number :=
    (List.getElem?_inj (List.getElem?_eq_some_iff.mp first).1 index.nodup).mp
      (first.trans second.symm)
  cases e
  cases other
  simp only [Edge.mk.injEq]
  exact ⟨unique source source', unique target target', kind.trans kind'.symm⟩

theorem edges_eq_of_transfers {index : AddressIndex} {edges others : List Edge}
    {told : List Transfer} (stand : edges.map index.transfer? = told.map some)
    (same : others.map index.transfer? = told.map some) : edges = others := by
  induction told generalizing edges others with
  | nil => rw [List.map_eq_nil_iff.mp stand, List.map_eq_nil_iff.mp same]
  | cons t rest ih =>
      obtain ⟨e, edges, rfl, stands, remaining⟩ := List.map_eq_cons_iff.mp stand
      obtain ⟨other, others, rfl, found, further⟩ := List.map_eq_cons_iff.mp same
      rw [edge_eq_of_transfer? stands found, ih remaining further]

/-! ## Flows -/

theorem AddressIndex.eq_of_addresses {index later : AddressIndex}
    (addresses : index.addresses = later.addresses) : index = later := by
  obtain ⟨_, _, _, entries⟩ := index
  obtain ⟨_, _, _, others⟩ := later
  cases addresses
  cases entries
  cases others
  rfl

theorem Flow.build_moved_eq_none_iff (movable : f.Movable distance) (minBlocks : Int) :
    Flow.build (f.moved distance) minBlocks = none ↔ Flow.build f minBlocks = none := by
  have before : f.blocks.head?.map Block.offset ≠ some Flow.unanalysedOffset := movable.analysed
  have after : (f.moved distance).blocks.head?.map Block.offset ≠ some Flow.unanalysedOffset :=
    movable.analysedMoved
  rw [Flow.build_eq_none_iff, Flow.build_eq_none_iff]
  simp only [before, after, or_false]
  simp [Function.moved]

/-- A moved function has the same flow with its addresses moved, or is skipped at both places. -/
theorem Flow.build_moved (movable : f.Movable distance) (minBlocks : Int) :
    Flow.build (f.moved distance) minBlocks =
      (Flow.build f minBlocks).map (Flow.moved distance) := by
  cases built : Flow.build f minBlocks with
  | none => exact (Flow.build_moved_eq_none_iff movable minBlocks).mpr built
  | some flow =>
      cases rebuilt : Flow.build (f.moved distance) minBlocks with
      | none =>
          have skipped := (Flow.build_moved_eq_none_iff movable minBlocks).mp rebuilt
          rw [built] at skipped
          cases skipped
      | some later =>
          have index : later.index = flow.index.moved distance := by
            refine AddressIndex.eq_of_addresses ?_
            rw [Flow.numbers_build rebuilt, visited_moved movable,
              eraseDups_map_of_injective (add_left_injective distance), ← Flow.numbers_build built]
            rfl
          -- With their addresses moved, the old edges stand for the moved transfers.
          have stand : flow.edges.map later.index.transfer? =
              (transfers (f.moved distance)).map some := by
            calc flow.edges.map later.index.transfer?
                = flow.edges.map fun e => (flow.index.transfer? e).map (Transfer.moved distance) :=
                  index ▸ List.map_congr_left fun e _ => transfer?_moved flow.index e
              _ = (flow.edges.map flow.index.transfer?).map
                    (Option.map (Transfer.moved distance)) := by
                  rw [List.map_map]
                  rfl
              _ = ((transfers f).map (Transfer.moved distance)).map some := by
                  rw [Flow.transfers_build built, List.map_map, List.map_map]
                  rfl
              _ = (transfers (f.moved distance)).map some := by rw [transfers_moved movable]
          have edges := edges_eq_of_transfers (Flow.transfers_build rebuilt) stand
          have name : later.function = flow.function := by
            rw [Flow.build_eq_some rebuilt, Flow.build_eq_some built]
            rfl
          obtain ⟨_, _, _⟩ := later
          cases name
          cases index
          cases edges
          rfl

end FlowCorpus.Graph
