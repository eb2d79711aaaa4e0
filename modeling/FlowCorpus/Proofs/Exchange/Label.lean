import FlowCorpus.Exchange.Attributed
import FlowCorpus.Exchange.Multigraph
import FlowCorpus.Proofs.Exchange.Entries
import FlowCorpus.Proofs.Number.Notation

/-!
# Labels tell nodes apart

No two nodes of a flow have the same label: the labels by index are the numbers of the nodes, and
those by address end with the address in base ten, behind the last blank.
-/

set_option autoImplicit false

namespace FlowCorpus.Exchange

open FlowCorpus.Graph FlowCorpus.Json FlowCorpus.Number

/-- Names of the numbers below a bound of which no two are the same. -/
def TellsApart (name : Nat → Name) (count : Nat) : Prop :=
  ∀ i < count, ∀ j < count, (name i == name j) = (i == j)

theorem TellsApart.beq_self {name : Nat → Name} {count : Nat} (apart : TellsApart name count)
    {i : Nat} (inside : i < count) : (name i == name i) = true := by
  rw [apart i inside i inside, beq_self_eq_true]

theorem TellsApart.pairwise {name : Nat → Name} {count : Nat} (apart : TellsApart name count) :
    ((List.range count).map name).Pairwise fun first second => (first == second) = false := by
  rw [List.pairwise_map]
  refine List.Pairwise.imp_of_mem ?_ List.nodup_range
  intro i j first second different
  rw [apart i (List.mem_range.mp first) j (List.mem_range.mp second), beq_eq_false_iff_ne]
  exact different

theorem tellsApart_nameOf (count : Nat) : TellsApart Multigraph.nameOf count := by
  intro i _ j _
  change ((i : Int) == (j : Int)) = (i == j)
  rw [Bool.eq_iff_iff, beq_iff_eq, beq_iff_eq, Int.natCast_inj]

namespace NodeLabel

theorem takeWhile_reverse_append (s t : String) (unbroken : ' ' ∉ t.toList) :
    (s ++ " / " ++ t).toList.reverse.takeWhile (· != ' ') = t.toList.reverse := by
  have behind : ∀ c ∈ t.toList.reverse, (c != ' ') = true := by
    intro c member
    rw [bne_iff_ne]
    rintro rfl
    exact unbroken (List.mem_reverse.mp member)
  have separator : " / ".toList.reverse = [' ', '/', ' '] := rfl
  rw [String.toList_append, String.toList_append, List.reverse_append, List.reverse_append,
    List.takeWhile_append_of_pos behind, separator]
  exact List.append_nil _

theorem blank_not_mem_intText (n : Int) : ' ' ∉ (intText n).toList := by
  intro member
  rcases mem_intText member with sign | digit
  · exact absurd sign (by decide)
  · exact absurd digit (by decide)

theorem addressText_injective {a b : Int}
    (same : hexText a ++ " / " ++ intText a = hexText b ++ " / " ++ intText b) : a = b := by
  -- The address in base ten is what stands behind the last blank.
  have tails : (intText a).toList.reverse = (intText b).toList.reverse := by
    rw [← takeWhile_reverse_append (hexText a) _ (blank_not_mem_intText a), same,
      takeWhile_reverse_append _ _ (blank_not_mem_intText b)]
  exact intText_injective (String.toList_inj.mp (List.reverse_inj.mp tails))

theorem sameName_label (mode : NodeLabel) (i j a b : Int) :
    sameName (mode.label i a) (mode.label j b) =
      match mode with
      | .index => i == j
      | .address => a == b := by
  cases mode with
  | index => rfl
  | address =>
      change (_ == _) = (a == b)
      rw [Bool.eq_iff_iff, beq_iff_eq, beq_iff_eq]
      exact ⟨fun same => addressText_injective (Text.LooseText.whole.inj same),
        fun same => same ▸ rfl⟩

end NodeLabel

namespace Attributed

def labelName (flow : Flow) (mode : NodeLabel) (id : Nat) : Name :=
  ⟨((labels flow mode)[id]?).getD .null⟩

theorem labelName_value {flow : Flow} {mode : NodeLabel} {id : Nat} {address : Int}
    (stands : flow.index.addresses[id]? = some address) :
    (labelName flow mode id).value = mode.label id address := by
  simp only [labelName, labels, List.getElem?_mapIdx, stands, Option.map_some, Option.getD_some]

/-- No two nodes of a flow have the same label. -/
theorem tellsApart_labelName (flow : Flow) (mode : NodeLabel) :
    TellsApart (labelName flow mode) flow.nodeCount := by
  intro i small j below
  have first := List.getElem?_eq_getElem small
  have second := List.getElem?_eq_getElem below
  change sameName (labelName flow mode i).value (labelName flow mode j).value = _
  rw [labelName_value first, labelName_value second, NodeLabel.sameName_label, Bool.eq_iff_iff]
  cases mode with
  | index => exact (beq_iff_eq.trans Int.natCast_inj).trans beq_iff_eq.symm
  | address =>
      refine (beq_iff_eq.trans ?_).trans beq_iff_eq.symm
      exact List.getElem_inj flow.index.nodup

theorem nodeName_labelName {flow : Flow} {mode : NodeLabel} {id : Nat}
    (inside : id < flow.nodeCount) :
    Multigraph.nodeName (labelName flow mode id).value = .ok (labelName flow mode id) := by
  have shape : labelName flow mode id = ⟨mode.label id _⟩ :=
    congrArg Name.mk (labelName_value (List.getElem?_eq_getElem inside))
  rw [shape]
  cases mode <;> rfl

end Attributed
end FlowCorpus.Exchange
