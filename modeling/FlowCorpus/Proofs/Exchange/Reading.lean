import FlowCorpus.Proofs.Exchange.Multigraph
import FlowCorpus.Proofs.Json.Fields

/-!
# Entries that are read back

The entry of a node is read as its label and its attributes, and that of an edge as the label of
its target and its weight: no attribute that a node is given has a name that stands for something
else in an entry.
-/

set_option autoImplicit false

namespace FlowCorpus.Exchange

open FlowCorpus.Feature FlowCorpus.Graph FlowCorpus.Json FlowCorpus.Text

/-! ## Names of attributes -/

/-- The names that attributes of a node cannot have. -/
def keptNames : List LooseText :=
  ["id", "self", "node_for_adding"]

def PlainNames (names : List LooseText) : Prop :=
  names.Nodup ∧ ∀ key ∈ keptNames, key ∉ names

theorem plainNames_nil : PlainNames [] :=
  ⟨List.nodup_nil, fun _ _ => List.not_mem_nil⟩

theorem plainNames_features : PlainNames ["features"] := by
  unfold PlainNames keptNames
  decide

theorem plainNames_fields? {scheme : Scheme} {names : List String}
    (counting : scheme.fields? = some names) : PlainNames (names.map .whole) := by
  unfold PlainNames keptNames
  cases scheme <;> cases counting <;> decide

theorem names_nameDoubles {scheme : Scheme} {names : List String} {values : List Number.Binary64}
    {attributes : Fields} (named : NodeFeature.nameDoubles scheme names values = .ok attributes) :
    attributes.map Prod.fst = names.map .whole := by
  unfold NodeFeature.nameDoubles at named
  split at named
  · rename_i same
    cases named
    rw [List.map_map]
    conv_rhs => rw [← List.map_fst_zip (Nat.le_of_eq same.symm), List.map_map]
    rfl
  · cases named

theorem plainNames_dataAttributes {scheme : Option Scheme} {value : Value} {attributes : Fields}
    (given : NodeFeature.dataAttributes scheme value = .ok attributes) :
    PlainNames (attributes.map Prod.fst) := by
  unfold NodeFeature.dataAttributes at given
  split at given
  · cases given
    exact plainNames_features
  · split at given
    · cases given
      exact plainNames_features
    · rename_i names counting
      split at given
      · cases given
      · split at given
        · obtain ⟨doubles, _, named⟩ := Outcome.bind_ok given
          rw [names_nameDoubles named]
          exact plainNames_fields? counting
        · cases given

theorem plainNames_attributes {scheme : Option Scheme} {feature : NodeFeature}
    {attributes : Fields} (given : feature.attributes scheme = .ok attributes) :
    PlainNames (attributes.map Prod.fst) := by
  cases feature with
  | vector v =>
      change NodeFeature.vectorAttributes v = .ok attributes at given
      unfold NodeFeature.vectorAttributes at given
      split at given
      · cases given
        exact plainNames_features
      · rename_i names counting
        rw [names_nameDoubles given]
        exact plainNames_fields? counting
  | pooled t =>
      cases given
      exact plainNames_features
  | lines ls => exact plainNames_dataAttributes given
  | tokens rows => exact plainNames_dataAttributes given
  | data value => exact plainNames_dataAttributes given
  | absent index => cases given

theorem plainNames_given {flow : Flow} {scheme : Option Scheme}
    {features : Option (List NodeFeature)} {attributes : List Fields}
    (given : Attributed.givenAttributes flow scheme features = .ok attributes) :
    ∀ fields ∈ attributes, PlainNames (fields.map Prod.fst) := by
  intro fields member
  cases features with
  | none =>
      cases given
      rw [(List.mem_replicate.mp member).2]
      exact plainNames_nil
  | some features =>
      obtain ⟨place, stands⟩ := List.mem_iff_getElem?.mp member
      obtain ⟨feature, _, made⟩ :=
        Outcome.getElem?_of_forall₂ (Outcome.mapM_ok given).flip stands
      exact plainNames_attributes made

/-! ## The entry of a node -/

namespace Multigraph

def entryPair (field : LooseText × Value) : Name × Value :=
  (⟨.str field.1⟩, field.2)

theorem nodeEntry_eq {label : Value} {attributes : Fields}
    (plain : PlainNames (attributes.map Prod.fst)) :
    Attributed.nodeEntry label attributes = .obj (("id", label) :: attributes) := by
  have distinct : ((([("id", label)] : Fields) ++ attributes).map Prod.fst).Nodup := by
    rw [List.singleton_append, List.map_cons, List.nodup_cons]
    exact ⟨plain.2 "id" (by decide), plain.1⟩
  exact congrArg Value.obj (Fields.update_eq_append distinct)

/-- The fields with a pair set, whose name has to be a text. -/
def setPair (fields : Fields) (pair : Name × Value) : Except Fault Fields :=
  match pair.1.value with
  | .str key => .ok (fields.set key pair.2)
  | _ => .error .wrongType

theorem foldlM_setPair (fields known : Fields) :
    (fields.map entryPair).foldlM setPair known = .ok (known.update fields) := by
  induction fields generalizing known with
  | nil => rfl
  | cons field rest ih => exact ih (Fields.set field.1 field.2 known)

theorem textFields_entryPair {fields : Fields} (distinct : (fields.map Prod.fst).Nodup) :
    textFields (fields.map entryPair) = .ok fields := by
  refine (foldlM_setPair fields []).trans ?_
  rw [Fields.update_eq_append (by simpa using distinct), List.nil_append]

/-- A reader takes the label and the attributes of an entry apart. -/
theorem splitEntry_ok {reserved : List LooseText} {label : Value} {attributes : Fields}
    (plain : PlainNames (attributes.map Prod.fst)) (kept : reserved ⊆ keptNames) :
    splitEntry reserved ((("id", label) :: attributes : Fields).map entryPair) =
      .ok (label, attributes) := by
  -- The label is the only field of its name, since the attributes have others.
  have other : ∀ pair ∈ attributes.map entryPair, (pair.1 == ⟨.str "id"⟩) = false := by
    intro pair member
    obtain ⟨field, inside, rfl⟩ := List.mem_map.mp member
    change (field.1 == "id") = false
    rw [beq_eq_false_iff_ne]
    intro same
    exact plain.2 "id" (by decide) (List.mem_map.mpr ⟨field, inside, same⟩)
  have found : pairValue? ((("id", label) :: attributes : Fields).map entryPair) "id" =
      some label := by
    unfold pairValue?
    rw [List.map_cons, List.reverse_cons, List.find?_append, List.find?_eq_none.mpr]
    · rfl
    · intro pair member
      rw [other pair (List.mem_reverse.mp member)]
      exact Bool.false_ne_true
  have rest : ((("id", label) :: attributes : Fields).map entryPair).filter
      (fun pair => !(pair.1 == ⟨.str "id"⟩)) = attributes.map entryPair := by
    have itself : ((entryPair ("id", label)).1 == ⟨.str "id"⟩) = true :=
      beq_self_eq_true ("id" : LooseText)
    rw [List.map_cons, List.filter_cons_of_neg (by rw [itself]; decide), List.filter_eq_self]
    intro pair member
    rw [other pair member]
    rfl
  have allowed : (reserved.any fun key => (Fields.get? attributes key).isSome) = false := by
    rw [List.any_eq_false]
    intro key member
    rw [Fields.get?_of_not_mem (plain.2 key (kept member))]
    exact Bool.false_ne_true
  unfold splitEntry
  simp only [found, rest, textFields_entryPair plain.1, bind, Except.bind, allowed]
  rfl

theorem addNodeEntry_eq {g : Multigraph} {name : Name} {attributes : Fields}
    (plain : PlainNames (attributes.map Prod.fst)) (usable : nodeName name.value = .ok name)
    (fresh : g.names.contains name = false) :
    addNodeEntry g (Attributed.nodeEntry name.value attributes) =
      .ok { g with nodes := g.nodes ++ [(name, attributes)] } := by
  have kept : (["self", "node_for_adding"] : List LooseText) ⊆ keptNames :=
    List.subset_cons_self ..
  have pairs : entryPairs (.obj (("id", name.value) :: attributes)) =
      .ok ((("id", name.value) :: attributes : Fields).map entryPair) := rfl
  unfold addNodeEntry
  rw [nodeEntry_eq plain, pairs]
  simp only [bind, Except.bind, splitEntry_ok plain kept, usable]
  rw [addNode_of_not_contains attributes fresh]
  rfl

end Multigraph
end FlowCorpus.Exchange
