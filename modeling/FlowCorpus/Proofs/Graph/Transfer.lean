import FlowCorpus.Graph.Flow
import FlowCorpus.Proofs.Graph.Numbering

/-!
# Transfers of control

What the control flow of a function is when it is told by addresses alone: the addresses that its
blocks bring up, and the transfers of control between them. The numbered graph says the same: its
nodes are those addresses by first occurrence, and its edges are those transfers in order.
-/

set_option autoImplicit false

namespace FlowCorpus.Graph

open FlowCorpus.Program

/-- An address of a function: one at all, and inside the bounds of the function. -/
def Inside (f : Function) (address : Int) : Prop :=
  address ≠ noAddress ∧ f.offset ≤ address ∧ address < f.upperBound

instance (f : Function) : DecidablePred (Inside f) := fun address =>
  inferInstanceAs (Decidable (address ≠ noAddress ∧ f.offset ≤ address ∧ address < f.upperBound))

structure Transfer where
  source : Int
  target : Int
  kind : EdgeKind
deriving DecidableEq, Repr

def switchTargets (b : Block) : List Int :=
  (b.switchCases.map SwitchCase.jump).filter (· ≠ noAddress)

def visitedBy (f : Function) (b : Block) : List Int :=
  [b.offset, b.jump, b.fail].filter (Inside f ·) ++
    if Inside f b.offset then switchTargets b else []

def visited (f : Function) : List Int :=
  f.blocks.flatMap (visitedBy f)

/-- The ways out of a block: its jump, its fall-through and the cases of its switch. -/
def exits (f : Function) (b : Block) : List (Int × EdgeKind) :=
  (if Inside f b.jump then [(b.jump, .jump)] else []) ++
    (if Inside f b.fail then [(b.fail, .fail)] else []) ++
    (switchTargets b).map fun target => (target, .switch)

def transfersFrom (f : Function) (b : Block) : List Transfer :=
  if Inside f b.offset then
    (exits f b).map fun exit => ⟨b.offset, exit.1, exit.2⟩
  else []

def transfers (f : Function) : List Transfer :=
  f.blocks.flatMap (transfersFrom f)

def AddressIndex.transfer? (index : AddressIndex) (e : Edge) : Option Transfer :=
  match index.addresses[e.source]?, index.addresses[e.target]? with
  | some source, some target => some ⟨source, target, e.kind⟩
  | _, _ => none

theorem AddressIndex.transfer?_eq {index : AddressIndex} {e : Edge} {source target : Int}
    (atSource : index.addresses[e.source]? = some source)
    (atTarget : index.addresses[e.target]? = some target) :
    index.transfer? e = some ⟨source, target, e.kind⟩ := by
  simp only [AddressIndex.transfer?, atSource, atTarget]

theorem AddressIndex.transfer?_eq_some_iff {index : AddressIndex} {e : Edge} {t : Transfer} :
    index.transfer? e = some t ↔ index.addresses[e.source]? = some t.source ∧
      index.addresses[e.target]? = some t.target ∧ e.kind = t.kind := by
  constructor
  · intro stands
    unfold AddressIndex.transfer? at stands
    split at stands
    · rename_i source target atSource atTarget
      cases stands
      exact ⟨atSource, atTarget, rfl⟩
    · cases stands
  · rintro ⟨atSource, atTarget, kind⟩
    rw [AddressIndex.transfer?_eq atSource atTarget, kind]

namespace Flow

/-! ## Bounds -/

theorem bounded_eq (f : Function) (address : Int) :
    bounded f.offset f.upperBound address = if Inside f address then address else noAddress := by
  unfold bounded
  by_cases within : f.offset ≤ address ∧ address < f.upperBound
  · rw [if_pos within]
    by_cases absent : address = noAddress
    · rw [if_neg (fun inside => inside.1 absent)]
      exact absent
    · rw [if_pos ⟨absent, within⟩]
  · rw [if_neg within, if_neg (fun inside => within inside.2)]

theorem bounded_of_inside {f : Function} {address : Int} (inside : Inside f address) :
    bounded f.offset f.upperBound address = address := by
  rw [bounded_eq, if_pos inside]

theorem bounded_of_not_inside {f : Function} {address : Int} (outside : ¬ Inside f address) :
    bounded f.offset f.upperBound address = noAddress := by
  rw [bounded_eq, if_neg outside]

theorem filter_map_bounded (f : Function) (addresses : List Int) :
    (addresses.map (bounded f.offset f.upperBound)).filter (· ≠ noAddress) =
      addresses.filter (Inside f ·) := by
  induction addresses with
  | nil => rfl
  | cons address rest ih =>
      rw [List.map_cons, List.filter_cons, List.filter_cons, ih]
      by_cases inside : Inside f address
      · simp [bounded_of_inside inside, inside, inside.1]
      · simp [bounded_of_not_inside inside, inside]

theorem ownAddresses_eq (f : Function) (b : Block) :
    ownAddresses b f.offset f.upperBound = [b.offset, b.jump, b.fail].filter (Inside f ·) :=
  filter_map_bounded f [b.offset, b.jump, b.fail]

theorem present_bounded (f : Function) (address : Int) (kind : EdgeKind) :
    present (bounded f.offset f.upperBound address) kind =
      if Inside f address then [(address, kind)] else [] := by
  unfold present
  by_cases inside : Inside f address
  · rw [bounded_of_inside inside, if_neg inside.1, if_pos inside]
  · rw [bounded_of_not_inside inside, if_pos rfl, if_neg inside]

theorem flatMap_present_eq (cases : List SwitchCase) :
    (cases.flatMap fun c => present c.jump .switch) =
      ((cases.map SwitchCase.jump).filter (· ≠ noAddress)).map fun target => (target, .switch) := by
  induction cases with
  | nil => rfl
  | cons c rest ih =>
      rw [List.flatMap_cons, ih, List.map_cons, List.filter_cons]
      by_cases absent : c.jump = noAddress <;> simp [present, absent]

theorem targets_eq (f : Function) (b : Block) :
    targets b f.offset f.upperBound = exits f b := by
  unfold targets exits switchTargets
  rw [present_bounded, present_bounded, flatMap_present_eq]

/-! ## One block -/

theorem prefix_insertAll (index : AddressIndex) (addresses : List Int) :
    index.addresses <+: (insertAll index addresses).addresses := by
  induction addresses generalizing index with
  | nil => exact List.prefix_rfl
  | cons address rest ih => exact (index.prefix_insert address).trans (ih (index.insert address))

theorem numbers_insertAll {index : AddressIndex} {met : List Int} (numbered : index.Numbers met)
    (addresses : List Int) : (insertAll index addresses).Numbers (met ++ addresses) := by
  induction addresses generalizing index met with
  | nil => simpa [insertAll] using numbered
  | cons address rest ih => simpa [insertAll] using ih (numbered.insert address)

theorem link_snd (source : Nat) (index : AddressIndex) (targets : List (Int × EdgeKind)) :
    (link source index targets).2 = insertAll index (targets.map Prod.fst) := by
  induction targets generalizing index with
  | nil => rfl
  | cons target rest ih =>
      obtain ⟨address, kind⟩ := target
      simp only [link, List.map_cons, insertAll, List.foldl_cons, ih, index.add_snd]

/-- The edges of a link stand for transfers to its targets, in every index that goes on from the
one that the link leaves. -/
theorem link_transfers {source : Nat} {start : Int} {index later : AddressIndex}
    {targets : List (Int × EdgeKind)} (atSource : index.addresses[source]? = some start)
    (grows : (link source index targets).2.addresses <+: later.addresses) :
    (link source index targets).1.map later.transfer? =
      targets.map fun target => some ⟨start, target.1, target.2⟩ := by
  induction targets generalizing index with
  | nil => rfl
  | cons target rest ih =>
      obtain ⟨address, kind⟩ := target
      -- The source keeps its number while the targets are numbered one after the other.
      have added : index.addresses <+: (index.add address).2.addresses := by
        rw [index.add_snd]
        exact index.prefix_insert address
      have linked : (index.add address).2.addresses <+: later.addresses := by
        refine List.IsPrefix.trans ?_ grows
        simp only [link, link_snd]
        exact prefix_insertAll ..
      have atTarget := AddressIndex.getElem?_of_prefix linked (index.getElem?_add address)
      have atSource := AddressIndex.getElem?_of_prefix added atSource
      simp only [link, List.map_cons]
      rw [ih atSource grows, AddressIndex.transfer?_eq
        (AddressIndex.getElem?_of_prefix linked atSource) atTarget]

theorem blockEdges_of_not_inside {f : Function} {b : Block} (outside : ¬ Inside f b.offset)
    (index : AddressIndex) :
    blockEdges b f.offset f.upperBound index =
      ([], insertAll index ([b.offset, b.jump, b.fail].filter (Inside f ·))) := by
  simp only [blockEdges, bounded_of_not_inside outside, ↓reduceIte, ownAddresses_eq]

theorem blockEdges_of_inside {f : Function} {b : Block} (inside : Inside f b.offset)
    {index : AddressIndex} {met : List Int} (numbered : index.Numbers met) :
    let own := insertAll index ([b.offset, b.jump, b.fail].filter (Inside f ·))
    ∃ source, own.addresses[source]? = some b.offset ∧
      blockEdges b f.offset f.upperBound index = link source own (exits f b) := by
  intro own
  have member : b.offset ∈ own.addresses := by
    rw [(numbers_insertAll numbered _).mem_addresses]
    simp [inside]
  obtain ⟨source, found⟩ := AddressIndex.get?_isSome_of_mem member
  refine ⟨source, AddressIndex.getElem?_of_get? found, ?_⟩
  simp only [blockEdges, bounded_of_inside inside, if_neg inside.1, ownAddresses_eq, targets_eq]
  rw [found]

theorem map_fst_exits (f : Function) (b : Block) :
    (exits f b).map Prod.fst = [b.jump, b.fail].filter (Inside f ·) ++ switchTargets b := by
  by_cases jumps : Inside f b.jump <;> by_cases falls : Inside f b.fail <;>
    simp [exits, jumps, falls, Function.comp_def]

theorem numbers_blockEdges (f : Function) (b : Block) {index : AddressIndex} {met : List Int}
    (numbered : index.Numbers met) :
    (blockEdges b f.offset f.upperBound index).2.Numbers (met ++ visitedBy f b) := by
  have own := numbers_insertAll numbered ([b.offset, b.jump, b.fail].filter (Inside f ·))
  unfold visitedBy
  by_cases inside : Inside f b.offset
  · obtain ⟨source, _, linked⟩ := blockEdges_of_inside inside numbered
    rw [linked, link_snd, map_fst_exits, if_pos inside, insertAll, List.foldl_append]
    -- The jump and the fall-through were numbered with the block, so only the switch adds.
    have again := numbers_insertAll own ([b.jump, b.fail].filter (Inside f ·))
    have known : [b.jump, b.fail].filter (Inside f ·) ⊆
        met ++ [b.offset, b.jump, b.fail].filter (Inside f ·) := by
      intro address member
      simp only [List.mem_append, List.mem_filter, List.mem_cons] at member ⊢
      exact .inr ⟨.inr member.1, member.2⟩
    rw [← List.append_assoc]
    exact numbers_insertAll (again.forget_known known) (switchTargets b)
  · rw [blockEdges_of_not_inside inside, if_neg inside, List.append_nil]
    exact own

theorem blockEdges_transfers (f : Function) (b : Block) {index later : AddressIndex}
    {met : List Int} (numbered : index.Numbers met)
    (grows : (blockEdges b f.offset f.upperBound index).2.addresses <+: later.addresses) :
    (blockEdges b f.offset f.upperBound index).1.map later.transfer? =
      (transfersFrom f b).map some := by
  unfold transfersFrom
  by_cases inside : Inside f b.offset
  · obtain ⟨source, atSource, linked⟩ := blockEdges_of_inside inside numbered
    rw [linked] at grows ⊢
    rw [link_transfers atSource grows, if_pos inside, List.map_map]
    rfl
  · rw [blockEdges_of_not_inside inside, if_neg inside]
    rfl

theorem prefix_blockEdges (f : Function) (b : Block) {index : AddressIndex} {met : List Int}
    (numbered : index.Numbers met) :
    index.addresses <+: (blockEdges b f.offset f.upperBound index).2.addresses := by
  by_cases inside : Inside f b.offset
  · obtain ⟨source, _, linked⟩ := blockEdges_of_inside inside numbered
    rw [linked, link_snd]
    exact (prefix_insertAll index _).trans (prefix_insertAll _ _)
  · rw [blockEdges_of_not_inside inside]
    exact prefix_insertAll index _

/-! ## All blocks -/

theorem prefix_blocksEdges (f : Function) (blocks : List Block) {index : AddressIndex}
    {met : List Int} (numbered : index.Numbers met) :
    index.addresses <+: (blocksEdges f.offset f.upperBound blocks index).2.addresses := by
  induction blocks generalizing index met with
  | nil => exact List.prefix_rfl
  | cons b rest ih =>
      exact (prefix_blockEdges f b numbered).trans (ih (numbers_blockEdges f b numbered))

theorem numbers_blocksEdges (f : Function) (blocks : List Block) {index : AddressIndex}
    {met : List Int} (numbered : index.Numbers met) :
    (blocksEdges f.offset f.upperBound blocks index).2.Numbers
      (met ++ blocks.flatMap (visitedBy f)) := by
  induction blocks generalizing index met with
  | nil => simpa [blocksEdges] using numbered
  | cons b rest ih =>
      rw [List.flatMap_cons, ← List.append_assoc]
      exact ih (numbers_blockEdges f b numbered)

theorem blocksEdges_transfers (f : Function) (blocks : List Block) {index later : AddressIndex}
    {met : List Int} (numbered : index.Numbers met)
    (grows : (blocksEdges f.offset f.upperBound blocks index).2.addresses <+: later.addresses) :
    (blocksEdges f.offset f.upperBound blocks index).1.map later.transfer? =
      (blocks.flatMap (transfersFrom f)).map some := by
  induction blocks generalizing index met with
  | nil => rfl
  | cons b rest ih =>
      have next := numbers_blockEdges f b numbered
      have first := blockEdges_transfers f b numbered ((prefix_blocksEdges f rest next).trans grows)
      rw [List.flatMap_cons, List.map_append, ← first, ← ih next grows, ← List.map_append]
      rfl

/-! ## The whole function -/

theorem build_eq_none_iff {f : Function} {minBlocks : Int} :
    build f minBlocks = none ↔
      (f.blocks.length : Int) < minBlocks ∨ f.blocks = [] ∨
        f.blocks.head?.map Block.offset = some unanalysedOffset := by
  unfold build isBuildable
  cases blocks : f.blocks with
  | nil => simp
  | cons b rest =>
      by_cases analysed : b.offset = unanalysedOffset <;>
        simp [analysed]

theorem build_eq_some {f : Function} {minBlocks : Int} {flow : Flow}
    (built : build f minBlocks = some flow) :
    flow = ⟨f.name, (blocksEdges f.offset f.upperBound f.blocks .empty).2,
      (blocksEdges f.offset f.upperBound f.blocks .empty).1⟩ := by
  unfold build at built
  split at built
  · exact (Option.some.inj built).symm
  · cases built

theorem numbers_build {f : Function} {minBlocks : Int} {flow : Flow}
    (built : build f minBlocks = some flow) : flow.index.Numbers (visited f) := by
  rw [build_eq_some built]
  exact numbers_blocksEdges f f.blocks AddressIndex.numbers_empty

theorem transfers_build {f : Function} {minBlocks : Int} {flow : Flow}
    (built : build f minBlocks = some flow) :
    flow.edges.map flow.index.transfer? = (transfers f).map some := by
  rw [build_eq_some built]
  exact blocksEdges_transfers f f.blocks AddressIndex.numbers_empty List.prefix_rfl

/-- Every edge stands for a transfer between the addresses at its numbers. -/
theorem exists_transfer_of_edge {f : Function} {minBlocks : Int} {flow : Flow}
    (built : build f minBlocks = some flow) {e : Edge} (member : e ∈ flow.edges) :
    ∃ t ∈ transfers f, flow.index.addresses[e.source]? = some t.source ∧
      flow.index.addresses[e.target]? = some t.target ∧ e.kind = t.kind := by
  have transfer : flow.index.transfer? e ∈ (transfers f).map some := by
    rw [← transfers_build built]
    exact List.mem_map_of_mem member
  obtain ⟨told, listed, stands⟩ := List.mem_map.mp transfer
  exact ⟨told, listed, AddressIndex.transfer?_eq_some_iff.mp stands.symm⟩

theorem edges_below_build {f : Function} {minBlocks : Int} {flow : Flow}
    (built : build f minBlocks = some flow) {e : Edge} (member : e ∈ flow.edges) :
    e.source < flow.nodeCount ∧ e.target < flow.nodeCount := by
  obtain ⟨_, _, atSource, atTarget, _⟩ := exists_transfer_of_edge built member
  exact ⟨(List.getElem?_eq_some_iff.mp atSource).1, (List.getElem?_eq_some_iff.mp atTarget).1⟩

/-- The numbered graph of a function is its control flow by addresses: there is one unless the
function is skipped, its nodes are the addresses that blocks bring up, by first occurrence, and its
edges are the transfers of control in order. -/
theorem build_visited_transfers (f : Function) (minBlocks : Int) :
    (build f minBlocks = none ↔
      (f.blocks.length : Int) < minBlocks ∨ f.blocks = [] ∨
        f.blocks.head?.map Block.offset = some 1) ∧
    ∀ flow, build f minBlocks = some flow →
      flow.index.addresses = (visited f).eraseDups ∧
      flow.edges.map flow.index.transfer? = (transfers f).map some :=
  ⟨build_eq_none_iff, fun _ built => ⟨numbers_build built, transfers_build built⟩⟩

/-- A function with a loop, a block outside its bounds, and a switch that leads out of them. -/
def switching : Function where
  name := "switching"
  offset := 16
  size := some 48
  blocks := [
    { offset := 16, jump := 32, fail := 16,
      switch := some { cases := [⟨4096, 16, "0"⟩, ⟨noAddress, 16, "1"⟩, ⟨32, 16, "2"⟩] } },
    { offset := 80, jump := 48, fail := 80 },
    { offset := 32, jump := 16 }]

theorem build_switching :
    ∃ flow, build switching 3 = some flow ∧
      flow.index.addresses = [16, 32, 4096, 48] ∧
      flow.edges.map flow.index.transfer? =
        [some ⟨16, 32, .jump⟩, some ⟨16, 16, .fail⟩, some ⟨16, 4096, .switch⟩,
          some ⟨16, 32, .switch⟩, some ⟨32, 16, .jump⟩] := by
  obtain ⟨skipped, agrees⟩ := build_visited_transfers switching 3
  cases built : build switching 3 with
  | none => exact absurd (skipped.mp built) (by decide)
  | some flow =>
      obtain ⟨addresses, edges⟩ := agrees flow built
      exact ⟨flow, rfl, addresses.trans (by decide), edges.trans (by decide)⟩

end Flow
end FlowCorpus.Graph
