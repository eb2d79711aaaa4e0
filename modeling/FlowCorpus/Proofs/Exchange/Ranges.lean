import FlowCorpus.Proofs.Exchange.Entries
import FlowCorpus.Proofs.Graph.DepthFirst
import FlowCorpus.Proofs.Program.Reading

/-!
# Addresses and numbers in range

What is read as an address has sixty-four bits or is no address at all, whatever the record holds.
So the nodes of a flow have addresses, its edges go between its nodes, and neither an export nor a
walk looks up a number that has no node.
-/

set_option autoImplicit false

namespace FlowCorpus.Program

open FlowCorpus.Json FlowCorpus.Outcome

def IsAddressOrNone (address : Int) : Prop :=
  address = noAddress ∨ (0 ≤ address ∧ address < addressLimit)

theorem isAddressOrNone_getD (number : Option Int) :
    IsAddressOrNone ((number.map addressOfInt).getD noAddress) := by
  cases number with
  | none => exact .inl rfl
  | some n => exact addressOfInt_eq_or n

theorem isAddressOrNone_addressOf (value : Value) : IsAddressOrNone (addressOf value) := by
  unfold addressOf
  split
  · exact addressOfInt_eq_or _
  · exact isAddressOrNone_getD _
  · split
    · exact isAddressOrNone_getD _
    · exact .inl rfl
  · exact .inl rfl

structure Block.Addressed (b : Block) : Prop where
  offset : IsAddressOrNone b.offset
  jump : IsAddressOrNone b.jump
  fail : IsAddressOrNone b.fail
  cases : ∀ c ∈ b.switchCases, IsAddressOrNone c.jump

theorem isAddressOrNone_switchCase {value : Value} {c : SwitchCase}
    (read : SwitchCase.ofJson value = .ok c) : IsAddressOrNone c.jump := by
  obtain ⟨fields, _, read⟩ := bind_ok read
  cases read
  exact isAddressOrNone_addressOf _

theorem isAddressOrNone_switchTable {value : Value} {table : SwitchTable}
    (read : SwitchTable.ofJson? value = .ok (some table)) :
    ∀ c ∈ table.cases, IsAddressOrNone c.jump := by
  cases value with
  | obj fields =>
      obtain ⟨made, read, shape⟩ := bind_ok read
      cases shape
      obtain ⟨elements, each⟩ := SwitchTable.cases_of_ofFields read
      exact forall_of_forall₂ (mapM_ok each).flip fun _ _ => isAddressOrNone_switchCase
  | null | bool | int | float | str | arr => cases read

theorem Block.addressed_ofJson {value : Value} {b : Block} (read : Block.ofJson value = .ok b) :
    b.Addressed := by
  obtain ⟨fields, _, made⟩ := Block.readFrom_of_ofJson read
  refine ⟨made.offset ▸ isAddressOrNone_addressOf _, made.jump ▸ isAddressOrNone_addressOf _,
    made.fail ▸ isAddressOrNone_addressOf _, ?_⟩
  have chosen := made.switch
  unfold Block.switchCases
  cases given : b.switch with
  | none => exact fun _ member => absurd member List.not_mem_nil
  | some table => exact isAddressOrNone_switchTable (given ▸ chosen)

theorem Function.addressed_ofJson {value : Value} {f : Function}
    (read : Function.ofJson value = .ok f) : ∀ b ∈ f.blocks, b.Addressed := by
  obtain ⟨fields, _, made⟩ := Function.readFrom_of_ofJson read
  obtain ⟨_, _, _, _, each⟩ := made.blocks
  exact forall_of_forall₂ (mapM_ok each).flip fun _ _ => Block.addressed_ofJson

end FlowCorpus.Program

namespace FlowCorpus.Graph

open FlowCorpus.Program

/-- A transfer out of a block: inside the function the block starts, and so do the targets of its
jump and its fall-through. -/
theorem exit_of_transfer {f : Function} {t : Transfer} (listed : t ∈ transfers f) :
    ∃ b ∈ f.blocks, Inside f b.offset ∧ t.source = b.offset ∧
      (t.kind ≠ .switch → Inside f t.target) := by
  obtain ⟨b, member, listed⟩ := List.mem_flatMap.mp listed
  unfold transfersFrom at listed
  split at listed
  · rename_i inside
    obtain ⟨exit, leaves, rfl⟩ := List.mem_map.mp listed
    refine ⟨b, member, inside, rfl, fun kind => ?_⟩
    simp only [exits, List.mem_append, List.mem_map] at leaves
    rcases leaves with (leaves | leaves) | ⟨target, _, rfl⟩
    · split at leaves
      · rename_i jumps
        exact List.mem_singleton.mp leaves ▸ jumps
      · cases leaves
    · split at leaves
      · rename_i falls
        exact List.mem_singleton.mp leaves ▸ falls
      · cases leaves
    · exact absurd rfl kind
  · cases listed

/-- The addresses that a function brings up are addresses, when its blocks give no others. -/
theorem isAddress_of_visited {f : Function} (addressed : ∀ b ∈ f.blocks, b.Addressed)
    {address : Int} (listed : address ∈ visited f) : 0 ≤ address ∧ address < addressLimit := by
  obtain ⟨b, member, listed⟩ := List.mem_flatMap.mp listed
  have own := addressed b member
  rcases List.mem_append.mp listed with listed | listed
  · obtain ⟨listed, inside⟩ := List.mem_filter.mp listed
    have present := (of_decide_eq_true inside).1
    simp only [List.mem_cons, List.not_mem_nil, or_false] at listed
    rcases listed with rfl | rfl | rfl
    · exact own.offset.resolve_left present
    · exact own.jump.resolve_left present
    · exact own.fail.resolve_left present
  · split at listed
    · obtain ⟨listed, present⟩ := List.mem_filter.mp listed
      obtain ⟨c, among, rfl⟩ := List.mem_map.mp listed
      exact (own.cases c among).resolve_left (of_decide_eq_true present)
    · cases listed

end FlowCorpus.Graph

namespace FlowCorpus.Exchange.Attributed

open FlowCorpus.Feature FlowCorpus.Graph FlowCorpus.Json FlowCorpus.Program

/-- The entry of an edge stands in the row of its source, under the label of its target. -/
theorem entry_of_edge {flow : Flow} {e : Edge} (member : e ∈ flow.edges)
    (apart : e.source ≠ e.target) (inside : e.source < flow.nodeCount) {target : Int}
    (placed : flow.index.addresses[e.target]? = some target) (mode : NodeLabel)
    (nodes : List Value) :
    ∃ row, (ofFlow flow (labels flow mode) nodes).adjacency[e.source]? = some row ∧
      .obj [("weight", .int e.kind.weight), ("id", mode.label e.target target)] ∈ row := by
  refine ⟨edgeEntries flow (labels flow mode) e.source, ?_, ?_⟩
  · simp [ofFlow, List.getElem?_range inside]
  · refine List.mem_map.mpr ⟨e, List.mem_filter.mpr ⟨member, by simp [apart]⟩, ?_⟩
    simp [edgeEntry, labels, placed]

structure InRange (f : Function) (flow : Flow) : Prop where
  addresses : ∀ address ∈ flow.index.addresses, 0 ≤ address ∧ address < addressLimit
  ends : ∀ e ∈ flow.edges, e.source < flow.nodeCount ∧ e.target < flow.nodeCount
  sources : ∀ e ∈ flow.edges, ∃ b ∈ f.blocks, flow.index.addresses[e.source]? = some b.offset ∧
    f.offset ≤ b.offset ∧ b.offset < f.upperBound
  targets : ∀ e ∈ flow.edges, e.kind ≠ .switch → ∃ target,
    flow.index.addresses[e.target]? = some target ∧ f.offset ≤ target ∧ target < f.upperBound
  entries : ∀ features scheme mode exported,
    (ofFeatures flow features scheme mode).result = .ok (some exported) →
    ∀ e ∈ flow.edges, e.source ≠ e.target → ∃ row target,
      exported.adjacency[e.source]? = some row ∧ flow.index.addresses[e.target]? = some target ∧
      .obj [("weight", .int e.kind.weight), ("id", mode.label e.target target)] ∈ row
  walks : ∀ start < flow.nodeCount, ∀ length, ∀ node ∈ flow.walk length start,
    node < flow.nodeCount ∧ ∃ address, flow.index.addressOf? (node : Int) = some address

/-- In the flow of a function that was read from a record, everything is in range. -/
theorem inRange_ofJson {value : Value} {f : Function} (read : Function.ofJson value = .ok f)
    {minBlocks : Int} {flow : Flow} (built : Flow.build f minBlocks = some flow) :
    InRange f flow where
  addresses := fun address member =>
    isAddress_of_visited (Function.addressed_ofJson read)
      ((Flow.numbers_build built).mem_addresses.mp member)
  ends := fun e member => Flow.edges_below_build built member
  sources := by
    intro e member
    obtain ⟨t, listed, atSource, _⟩ := Flow.exists_transfer_of_edge built member
    obtain ⟨b, among, inside, same, _⟩ := exit_of_transfer listed
    exact ⟨b, among, same ▸ atSource, inside.2⟩
  targets := by
    intro e member kind
    obtain ⟨t, listed, _, atTarget, same⟩ := Flow.exists_transfer_of_edge built member
    obtain ⟨b, _, _, _, lands⟩ := exit_of_transfer listed
    exact ⟨t.target, atTarget, (lands (same ▸ kind)).2⟩
  entries := by
    intro features scheme mode exported accepted e member apart
    obtain ⟨attributes, _, _, rfl⟩ := ofFeatures_accepted accepted
    obtain ⟨t, _, _, atTarget, _⟩ := Flow.exists_transfer_of_edge built member
    have inside := (Flow.edges_below_build built member).1
    obtain ⟨row, stands, among⟩ := entry_of_edge member apart inside atTarget mode _
    exact ⟨row, t.target, stands, atTarget, among⟩
  walks := by
    intro start inside length node member
    have closed := Flow.closed_build built
    obtain ⟨order, search, _, early⟩ := (Flow.walks_walk closed inside length).initial
    have below := search.inside closed inside node (early.subset member)
    exact ⟨below, _, (flow.index.addressOf?_natCast node).trans (List.getElem?_eq_getElem below)⟩

/-- A record whose own address cannot be read, so that no address lies inside its bounds, and with
blocks and cases of which some have no address. -/
def unplacedRecord : Value :=
  .obj [("name", .str "unplaced"), ("offset", .str "entry"), ("size", .int 33), ("blocks", .arr [
    .obj [("offset", .int 0), ("jump", .str "0x10"), ("fail", .int (-1)), ("ops", .arr [])],
    .obj [("jump", .int 16), ("fail", .int 0), ("ops", .arr [])],
    .obj [("offset", .str "16"), ("jump", .int 40), ("switchop", .obj [("cases", .arr [
      .obj [("jump", .str "0xffffffffffffffff")], .obj [("jump", .int 18446744073709551616)]])]),
      ("ops", .arr [])]])]

def unplaced : Function where
  name := "unplaced"
  offset := noAddress
  size := some 33
  blocks := [
    { offset := 0, jump := 16 },
    { offset := noAddress, jump := 16, fail := 0 },
    { offset := 16, jump := 40, switch := some { cases := [
      ⟨18446744073709551615, noAddress, ""⟩, ⟨noAddress, noAddress, ""⟩] } }]

theorem inRange_unplaced :
    Function.ofJson unplacedRecord = .ok unplaced ∧
    ∃ flow, Flow.build unplaced 3 = some flow ∧
      flow.index.addresses = [0, 16, 18446744073709551615] ∧ InRange unplaced flow := by
  have read : Function.ofJson unplacedRecord = .ok unplaced := by decide +kernel
  have built : Flow.build unplaced 3 = some _ := rfl
  exact ⟨read, _, built, by decide, inRange_ofJson read built⟩

end FlowCorpus.Exchange.Attributed
