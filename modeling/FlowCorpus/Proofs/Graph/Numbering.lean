import FlowCorpus.Graph.AddressIndex

/-!
# Numbering by first sight

An index numbers the addresses that it has met, in the order in which it met them first: numbers
once given stay, and the address of a number is found again in every later index. Its dictionary
and its list are inverse to each other.
-/

set_option autoImplicit false

namespace FlowCorpus.Graph.AddressIndex

def Numbers (index : AddressIndex) (met : List Int) : Prop :=
  index.addresses = met.eraseDups

theorem eraseDups_concat (met : List Int) (address : Int) :
    (met ++ [address]).eraseDups =
      if address ∈ met then met.eraseDups else met.eraseDups ++ [address] := by
  rw [List.eraseDups_append]
  split
  · rename_i known
    have nothing : [address].removeAll met = [] := by simp [List.removeAll, known]
    rw [nothing, List.eraseDups_nil, List.append_nil]
  · rename_i fresh
    have itself : [address].removeAll met = [address] := by simp [List.removeAll, fresh]
    rw [itself]
    rfl

theorem numbers_empty : empty.Numbers [] := rfl

theorem Numbers.mem_addresses {index : AddressIndex} {met : List Int} (numbered : index.Numbers met)
    {address : Int} : address ∈ index.addresses ↔ address ∈ met := by
  rw [numbered, List.mem_eraseDups]

theorem add_cases (index : AddressIndex) (address : Int) :
    (∃ id, index.get? address = some id ∧ index.add address = (id, index)) ∨
      ∃ fresh : index.get? address = none,
        index.add address = (index.size, index.append address fresh) := by
  unfold add
  split
  · rename_i id found
    exact .inl ⟨id, found, rfl⟩
  · rename_i fresh
    exact .inr ⟨fresh, rfl⟩

theorem getElem?_of_get? {index : AddressIndex} {address : Int} {id : Nat}
    (found : index.get? address = some id) : index.addresses[id]? = some address := by
  obtain ⟨_, _, entries, _⟩ := List.lookup_eq_some_iff.mp found
  exact mem_ids.mp (entries ▸ List.mem_append_right _ List.mem_cons_self)

/-- The dictionary and the list are inverse to each other. -/
theorem get?_eq_some_iff {index : AddressIndex} {address : Int} {id : Nat} :
    index.get? address = some id ↔ index.addresses[id]? = some address := by
  constructor
  · exact getElem?_of_get?
  · intro listed
    cases found : index.get? address with
    | none => exact absurd (List.mem_of_getElem? listed) (get?_eq_none_iff.mp found)
    | some other =>
        have same := (getElem?_of_get? found).trans listed.symm
        have inside := (List.getElem?_eq_some_iff.mp (getElem?_of_get? found)).1
        rw [(List.getElem?_inj inside index.nodup).mp same]

theorem get?_isSome_of_mem {index : AddressIndex} {address : Int}
    (member : address ∈ index.addresses) : ∃ id, index.get? address = some id := by
  cases found : index.get? address with
  | none => exact absurd member (get?_eq_none_iff.mp found)
  | some id => exact ⟨id, rfl⟩

theorem insert_of_mem {index : AddressIndex} {address : Int}
    (member : address ∈ index.addresses) : index.insert address = index := by
  unfold insert
  obtain ⟨_, _, added⟩ | ⟨fresh, _⟩ := index.add_cases address
  · rw [added]
  · exact absurd member (get?_eq_none_iff.mp fresh)

theorem addresses_insert_of_not_mem {index : AddressIndex} {address : Int}
    (fresh : address ∉ index.addresses) :
    (index.insert address).addresses = index.addresses ++ [address] := by
  unfold insert
  obtain ⟨_, found, _⟩ | ⟨_, added⟩ := index.add_cases address
  · exact absurd (List.mem_of_getElem? (getElem?_of_get? found)) fresh
  · rw [added]
    rfl

theorem Numbers.insert {index : AddressIndex} {met : List Int} (numbered : index.Numbers met)
    (address : Int) : (index.insert address).Numbers (met ++ [address]) := by
  unfold Numbers
  rw [eraseDups_concat]
  by_cases known : address ∈ met
  · rw [insert_of_mem (numbered.mem_addresses.mpr known), if_pos known]
    exact numbered
  · have fresh : address ∉ index.addresses := fun member =>
      known (numbered.mem_addresses.mp member)
    rw [addresses_insert_of_not_mem fresh, if_neg known, numbered]

theorem Numbers.forget_known {index : AddressIndex} {met again : List Int}
    (numbered : index.Numbers (met ++ again)) (known : again ⊆ met) : index.Numbers met := by
  have nothing : again.removeAll met = [] := by
    simpa [List.removeAll, List.filter_eq_nil_iff] using fun _ member => known member
  unfold Numbers at numbered ⊢
  rw [numbered, List.eraseDups_append, nothing, List.eraseDups_nil, List.append_nil]

/-- An index numbers its own addresses, which are distinct. -/
theorem numbers_addresses (index : AddressIndex) : index.Numbers index.addresses := by
  have distinct := index.nodup
  unfold Numbers
  generalize index.addresses = addresses at distinct ⊢
  induction addresses with
  | nil => rfl
  | cons address rest ih =>
      obtain ⟨fresh, others⟩ := List.nodup_cons.mp distinct
      have apart : rest.filter (fun other => !other == address) = rest := by
        apply List.filter_eq_self.mpr
        intro other member
        have different : other ≠ address := fun same => fresh (same ▸ member)
        simp [different]
      rw [List.eraseDups_cons, apart, ← ih others]

theorem addressOf?_natCast (index : AddressIndex) (id : Nat) :
    index.addressOf? (id : Int) = index.addresses[id]? := by
  simp [addressOf?]

theorem addressOf_eq_ok_iff {index : AddressIndex} {id address : Int} :
    index.addressOf id = .ok address ↔ index.addressOf? id = some address := by
  unfold addressOf
  cases index.addressOf? id <;> simp

theorem addressOf_of_nonneg {index : AddressIndex} {id address : Int} (nonneg : 0 ≤ id) :
    index.addressOf id = .ok address ↔ index.addresses[id.toNat]? = some address := by
  rw [addressOf_eq_ok_iff, addressOf?, if_pos nonneg]

theorem prefix_insert (index : AddressIndex) (address : Int) :
    index.addresses <+: (index.insert address).addresses := by
  by_cases member : address ∈ index.addresses
  · simp only [insert_of_mem member, List.prefix_rfl]
  · rw [addresses_insert_of_not_mem member]
    exact List.prefix_append ..

theorem add_snd (index : AddressIndex) (address : Int) :
    (index.add address).2 = index.insert address := rfl

theorem getElem?_add (index : AddressIndex) (address : Int) :
    (index.add address).2.addresses[(index.add address).1]? = some address := by
  obtain ⟨_, found, added⟩ | ⟨_, added⟩ := index.add_cases address
  · rw [added]
    exact getElem?_of_get? found
  · rw [added]
    simp [append, size]

theorem contains_eq_true_iff {index : AddressIndex} {address : Int} :
    index.contains address = true ↔ address ∈ index.addresses := by
  unfold contains
  rw [List.any_eq_true]
  constructor
  · rintro ⟨entry, member, same⟩
    rw [eq_of_beq same]
    exact List.mem_of_getElem? (mem_ids.mp member)
  · intro member
    obtain ⟨id, found⟩ := List.mem_iff_getElem?.mp member
    exact ⟨(address, id), mem_ids.mpr found, beq_self_eq_true address⟩

/-- What stands at a number stays there in every index that goes on from this one. -/
theorem getElem?_of_prefix {index later : AddressIndex}
    (grows : index.addresses <+: later.addresses) {id : Nat} {address : Int}
    (found : index.addresses[id]? = some address) :
    later.addresses[id]? = some address := by
  obtain ⟨inside, same⟩ := List.getElem?_eq_some_iff.mp found
  exact same ▸ List.prefix_iff_getElem?.mp grows id inside

end FlowCorpus.Graph.AddressIndex
