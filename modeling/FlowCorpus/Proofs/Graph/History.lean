import FlowCorpus.Graph.Operation
import FlowCorpus.Proofs.Graph.Transfer
import Mathlib.Data.Finset.Card

/-!
# Histories of an address index

What a run of operations makes of an index that begins empty. After every step the list and the
dictionary say the same about the addresses that were added so far, and no later step takes back
what an earlier one has answered.
-/

set_option autoImplicit false

namespace FlowCorpus.Graph

open FlowCorpus.Program

/-- A function that goes from one bound up to another, so that an address is inside it when it is
one at all and within the bounds. -/
def spanning (lower upper : Int) : Function where
  name := ""
  offset := lower
  size := some (upper - lower)

theorem upperBound_spanning (lower upper : Int) : (spanning lower upper).upperBound = upper := by
  simp only [spanning, Function.upperBound]
  omega

namespace AddressIndex

/-- The list and the dictionary of an index say the same, and have the addresses that were added,
by first occurrence. A negative number is no one's, although it finds an address from the end. -/
structure Agrees (index : AddressIndex) (added : List Int) : Prop where
  nodup : index.addresses.Nodup
  get?_iff : ∀ address id : Int, (index.get? address).map Int.ofNat = some id ↔
    0 ≤ id ∧ id < index.size ∧ index.addressOf id = .ok address
  contains_iff : ∀ address, index.contains address = true ↔ index.get? address ≠ none
  size_eq : index.size = added.toFinset.card
  numbers : index.Numbers added

/-- An index keeps what an earlier one says: its addresses in their places, the number of an
address, and the transfer that an edge stands for. -/
structure Keeps (index earlier : AddressIndex) : Prop where
  grows : earlier.addresses <+: index.addresses
  get? : ∀ address id, earlier.get? address = some id → index.get? address = some id
  transfer? : ∀ e t, earlier.transfer? e = some t → index.transfer? e = some t

theorem Numbers.agrees {index : AddressIndex} {added : List Int} (numbered : index.Numbers added) :
    index.Agrees added where
  nodup := index.nodup
  get?_iff address id := by
    constructor
    · intro found
      obtain ⟨place, got, rfl⟩ := Option.map_eq_some_iff.mp found
      have listed := get?_eq_some_iff.mp got
      refine ⟨Int.natCast_nonneg place, ?_, ?_⟩
      · exact Int.ofNat_lt.mpr (List.getElem?_eq_some_iff.mp listed).1
      · exact (addressOf_of_nonneg (Int.natCast_nonneg place)).mpr listed
    · rintro ⟨nonneg, -, stands⟩
      rw [get?_eq_some_iff.mpr ((addressOf_of_nonneg nonneg).mp stands)]
      exact congrArg some (Int.toNat_of_nonneg nonneg)
  contains_iff address := by
    rw [contains_eq_true_iff, ne_eq, get?_eq_none_iff, not_not]
  size_eq := by
    have same : index.addresses.toFinset = added.toFinset := by
      ext address
      rw [List.mem_toFinset, List.mem_toFinset, numbered.mem_addresses]
    rw [← same, List.toFinset_card_of_nodup index.nodup, size]
  numbers := numbered

theorem get?_of_grows {index later : AddressIndex} (grows : index.addresses <+: later.addresses)
    {address : Int} {id : Nat} (found : index.get? address = some id) :
    later.get? address = some id :=
  get?_eq_some_iff.mpr (AddressIndex.getElem?_of_prefix grows (get?_eq_some_iff.mp found))

theorem keeps_of_grows {index later : AddressIndex}
    (grows : index.addresses <+: later.addresses) : later.Keeps index where
  grows := grows
  get? _ _ found := get?_of_grows grows found
  transfer? e t stands := by
    obtain ⟨atSource, atTarget, kind⟩ := transfer?_eq_some_iff.mp stands
    exact transfer?_eq_some_iff.mpr
      ⟨AddressIndex.getElem?_of_prefix grows atSource,
        AddressIndex.getElem?_of_prefix grows atTarget, kind⟩

end AddressIndex

namespace Operation

/-- The addresses that an operation adds to an index, if they are not in it. -/
def added : Operation → List Int
  | .add address => [address]
  | .get _ | .contains _ | .addressOf _ => []
  | .blockEdges b lower upper => visitedBy (spanning lower upper) b

/-- An index bears out what an operation has answered: a number or an address that was found is
found again, and the edges of a block stand for its transfers. What was not found may come later,
and with it what a number from the end means. -/
def Stands (index : AddressIndex) : (operation : Operation) → operation.Answer → Prop
  | .add address, id => index.get? address = some id
  | .get address, found => ∀ id, found = some id → index.get? address = some id
  | .contains address, known => known = true → index.contains address = true
  | .addressOf id, found =>
      ∀ address, 0 ≤ id → found = .ok address → index.addressOf id = .ok address
  | .blockEdges b lower upper, edges =>
      edges.map index.transfer? = (transfersFrom (spanning lower upper) b).map some

/-! ## One step -/

theorem blockEdges_spanning (b : Block) (lower upper : Int) (index : AddressIndex) :
    Flow.blockEdges b lower upper index =
      Flow.blockEdges b (spanning lower upper).offset (spanning lower upper).upperBound index := by
  rw [upperBound_spanning]
  rfl

theorem numbers_run (operation : Operation) {index : AddressIndex} {met : List Int}
    (numbered : index.Numbers met) :
    (operation.run index).2.Numbers (met ++ operation.added) := by
  cases operation with
  | add address => exact numbered.insert address
  | get _ => simpa [run, added] using numbered
  | contains _ => simpa [run, added] using numbered
  | addressOf _ => simpa [run, added] using numbered
  | blockEdges b lower upper =>
      -- With its bounds, the block is one of a function that spans them.
      change (Flow.blockEdges b lower upper index).2.Numbers _
      rw [blockEdges_spanning]
      exact Flow.numbers_blockEdges (spanning lower upper) b numbered

theorem prefix_run (operation : Operation) (index : AddressIndex) :
    index.addresses <+: (operation.run index).2.addresses := by
  cases operation with
  | add address => exact index.prefix_insert address
  | get _ => exact List.prefix_rfl
  | contains _ => exact List.prefix_rfl
  | addressOf _ => exact List.prefix_rfl
  | blockEdges b lower upper =>
      change _ <+: (Flow.blockEdges b lower upper index).2.addresses
      rw [blockEdges_spanning]
      exact Flow.prefix_blockEdges (spanning lower upper) b index.numbers_addresses

/-- What an operation answers stands in every index that goes on from the one that it leaves. -/
theorem stands_run (operation : Operation) {index later : AddressIndex}
    (grows : (operation.run index).2.addresses <+: later.addresses) :
    operation.Stands later (operation.run index).1 := by
  cases operation with
  | add address =>
      exact AddressIndex.get?_eq_some_iff.mpr
        (AddressIndex.getElem?_of_prefix grows (index.getElem?_add address))
  | get address =>
      intro id found
      exact AddressIndex.get?_of_grows grows found
  | contains address =>
      intro known
      have member := AddressIndex.contains_eq_true_iff.mp known
      exact AddressIndex.contains_eq_true_iff.mpr (grows.subset member)
  | addressOf id =>
      intro address nonneg answered
      have listed := (AddressIndex.addressOf_of_nonneg nonneg).mp answered
      exact (AddressIndex.addressOf_of_nonneg nonneg).mpr
        (AddressIndex.getElem?_of_prefix grows listed)
  | blockEdges b lower upper =>
      change (Flow.blockEdges b lower upper index).2.addresses <+: _ at grows
      change (Flow.blockEdges b lower upper index).1.map _ = _
      rw [blockEdges_spanning] at grows ⊢
      exact Flow.blockEdges_transfers (spanning lower upper) b index.numbers_addresses grows

/-! ## Whole runs

What an index has is told by the operations before a step, by induction on them. Of the operations
after it, only that they let the list grow at its end is needed. -/

theorem numbers_runAll (operations : List Operation) {index : AddressIndex} {met : List Int}
    (numbered : index.Numbers met) :
    (runAll index operations).Numbers (met ++ operations.flatMap added) := by
  induction operations generalizing index met with
  | nil => simpa [runAll] using numbered
  | cons operation rest ih =>
      rw [List.flatMap_cons, ← List.append_assoc]
      exact ih (numbers_run operation numbered)

theorem prefix_runAll (operations : List Operation) (index : AddressIndex) :
    index.addresses <+: (runAll index operations).addresses := by
  induction operations generalizing index with
  | nil => exact List.prefix_rfl
  | cons operation rest ih =>
      exact (prefix_run operation index).trans (ih (operation.run index).2)

/-- Whatever was asked of an index since it was empty: after each step its two parts say the same
and have the addresses that were added so far, the step keeps what the index said before it, all
that follows keeps what it says then, and the answer of the step stands for good. -/
theorem agrees_keeps_stands (earlier : List Operation) (operation : Operation)
    (later : List Operation) :
    let before := runAll .empty earlier
    let after := (operation.run before).2
    let last := runAll after later
    after.Agrees ((earlier ++ [operation]).flatMap added) ∧
      after.Keeps before ∧ last.Keeps after ∧
      operation.Stands last (operation.run before).1 := by
  intro before after last
  have numbered : before.Numbers (earlier.flatMap added) := by
    simpa using numbers_runAll earlier AddressIndex.numbers_empty
  have goesOn : after.addresses <+: last.addresses := prefix_runAll later after
  refine ⟨?_, ?_, ?_, ?_⟩
  · rw [List.flatMap_append, List.flatMap_singleton]
    exact (numbers_run operation numbered).agrees
  · exact AddressIndex.keeps_of_grows (prefix_run operation before)
  · exact AddressIndex.keeps_of_grows goesOn
  · exact stands_run operation goesOn

/-- A block whose jump leads out of its bounds, where its switch leads as well. -/
def leaving : Block where
  offset := 16
  jump := 80
  fail := 32
  switch := some { cases := [⟨4096, 16, "0"⟩, ⟨noAddress, 16, "1"⟩, ⟨80, 16, "2"⟩] }

theorem agrees_keeps_stands_leaving :
    let before := runAll .empty [.add 80, .add 16]
    let (edges, after) := (blockEdges leaving 16 64).run before
    let last := runAll after [.addressOf 9, .add 48, .add 4096]
    edges = [⟨1, 2, .fail⟩, ⟨1, 3, .switch⟩, ⟨1, 0, .switch⟩] ∧
      before.addresses = [80, 16] ∧ after.addresses = [80, 16, 32, 4096] ∧
      last.addresses = [80, 16, 32, 4096, 48] ∧ after.size = 4 ∧
      last.get? 4096 = some 3 ∧
      edges.map last.transfer? =
        [some ⟨16, 32, .fail⟩, some ⟨16, 4096, .switch⟩, some ⟨16, 80, .switch⟩] := by
  obtain ⟨agrees, _, keeps, stands⟩ := agrees_keeps_stands [.add 80, .add 16]
    (.blockEdges leaving 16 64) [.addressOf 9, .add 48, .add 4096]
  refine ⟨by decide, by decide, by decide, by decide, ?_, ?_, ?_⟩
  · exact agrees.size_eq.trans (by decide)
  · exact keeps.get? 4096 3 (by decide)
  · exact stands.trans (by decide)

end Operation
end FlowCorpus.Graph
