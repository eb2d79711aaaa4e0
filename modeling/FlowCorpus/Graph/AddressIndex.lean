import FlowCorpus.Program.Address

/-!
# Address index

Dense node numbers for addresses, in the order in which the addresses are first seen. An address
once numbered keeps its number. The index is kept twice: a list gives the address of a number, a
dictionary the number of an address.
-/

set_option autoImplicit false

namespace FlowCorpus.Graph

/-- The addresses that have a number, each at the position of its number, and the number of each
address. The dictionary has the addresses in the order of the list. -/
structure AddressIndex where
  addresses : List Int
  ids : List (Int × Nat)
  nodup : addresses.Nodup
  entries : ids = addresses.zipIdx

namespace AddressIndex

def empty : AddressIndex :=
  ⟨[], [], List.nodup_nil, rfl⟩

def size (index : AddressIndex) : Nat :=
  index.addresses.length

def get? (index : AddressIndex) (address : Int) : Option Nat :=
  index.ids.lookup address

def contains (index : AddressIndex) (address : Int) : Bool :=
  index.ids.any fun entry => address == entry.1

theorem mem_ids {index : AddressIndex} {address : Int} {id : Nat} :
    (address, id) ∈ index.ids ↔ index.addresses[id]? = some address := by
  rw [index.entries, List.mk_mem_zipIdx_iff_getElem?]

theorem get?_eq_none_iff {index : AddressIndex} {address : Int} :
    index.get? address = none ↔ address ∉ index.addresses := by
  unfold get?
  rw [List.lookup_eq_none_iff]
  constructor
  · intro absent member
    obtain ⟨id, found⟩ := List.mem_iff_getElem?.mp member
    simpa using absent (address, id) (mem_ids.mpr found)
  · intro fresh entry member
    have listed := List.mem_of_getElem? (mem_ids.mp member)
    simpa using fun same : address = entry.1 => fresh (same ▸ listed)

def append (index : AddressIndex) (address : Int) (fresh : index.get? address = none) :
    AddressIndex where
  addresses := index.addresses ++ [address]
  ids := index.ids ++ [(address, index.size)]
  nodup := by
    have absent := get?_eq_none_iff.mp fresh
    refine List.nodup_append.mpr ⟨index.nodup, by simp, ?_⟩
    rintro a known b last rfl
    exact absent (List.mem_singleton.mp last ▸ known)
  entries := by simp [index.entries, List.zipIdx_append, size]

/-- The number of an address and the index in which it has that number: the next one if it had
none. -/
def add (index : AddressIndex) (address : Int) : Nat × AddressIndex :=
  match found : index.get? address with
  | some id => (id, index)
  | none => (index.size, index.append address found)

def insert (index : AddressIndex) (address : Int) : AddressIndex :=
  (index.add address).2

/-- The address of a number; a negative one counts from the end. -/
def addressOf? (index : AddressIndex) (id : Int) : Option Int :=
  if 0 ≤ id then index.addresses[id.toNat]?
  else if -id ≤ index.size then index.addresses[index.size - (-id).toNat]?
  else none

/-- The address of a number, which is refused when it is out of range. -/
def addressOf (index : AddressIndex) (id : Int) : Except Fault Int :=
  match index.addressOf? id with
  | some address => .ok address
  | none => .error .outOfRange

end AddressIndex
end FlowCorpus.Graph
