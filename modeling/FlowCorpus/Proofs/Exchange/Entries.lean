import FlowCorpus.Exchange.Attributed
import FlowCorpus.Proofs.Journal
import FlowCorpus.Proofs.Outcome

/-!
# Entries of exported nodes

When a flow is exported: there are as many features as nodes and every one of them has attributes.
The entry of a node is then its label and the attributes of the feature at its place, and no
attribute has a name that a reader keeps for itself.
-/

set_option autoImplicit false

namespace FlowCorpus.Exchange.Attributed

open FlowCorpus.Feature FlowCorpus.Graph FlowCorpus.Json

/-- The attributes that the nodes of a flow are given: those of their features, or none. -/
def givenAttributes (flow : Flow) (scheme : Option Scheme) :
    Option (List NodeFeature) → Except Fault (List Fields)
  | none => .ok (List.replicate flow.nodeCount [])
  | some features => features.mapM (NodeFeature.attributes scheme)

theorem length_labels (flow : Flow) (mode : NodeLabel) :
    (labels flow mode).length = flow.nodeCount := by
  simp [labels, Flow.nodeCount, AddressIndex.size]

theorem nodeEntries_ok {scheme : Option Scheme} {names : List Value} {features : List NodeFeature}
    {nodes : List Value} (same : names.length = features.length)
    (success : nodeEntries scheme names features = .ok nodes) :
    ∃ attributes, features.mapM (NodeFeature.attributes scheme) = .ok attributes ∧
      nodes = List.zipWith nodeEntry names attributes := by
  unfold nodeEntries at success
  induction names generalizing features nodes with
  | nil =>
      obtain rfl := List.length_eq_zero_iff.mp same.symm
      cases success
      exact ⟨[], rfl, rfl⟩
  | cons name rest ih =>
      cases features with
      | nil => cases same
      | cons feature others =>
          rw [List.zip_cons_cons, List.mapM_cons] at success
          obtain ⟨entry, first, success⟩ := Outcome.bind_ok success
          obtain ⟨entries, remaining, shape⟩ := Outcome.bind_ok success
          obtain ⟨attributes, given, made⟩ := Outcome.bind_ok first
          obtain ⟨more, mapped, zipped⟩ := ih (Nat.succ.inj same) remaining
          cases shape
          cases made
          refine ⟨attributes :: more, ?_, by rw [zipped]; rfl⟩
          rw [List.mapM_cons, given, mapped]
          rfl

/-- The outcome of an export: the number of features decides before their attributes do. -/
theorem result_ofFeatures (flow : Flow) (features : List NodeFeature) (scheme : Option Scheme)
    (mode : NodeLabel) :
    (ofFeatures flow (some features) scheme mode).result =
      if features.length = flow.nodeCount then
        match nodeEntries scheme (labels flow mode) features with
        | .ok nodes => .ok (some (ofFlow flow (labels flow mode) nodes))
        | .error fault => if fault.kind = .value then .ok none else .error fault
      else .ok none := by
  unfold ofFeatures
  by_cases counted : features.length = flow.nodeCount
  · simp only [counted, ↓reduceIte]
    cases nodeEntries scheme (labels flow mode) features with
    | ok nodes => rfl
    | error fault =>
        by_cases value : fault.kind = .value
        · simp only [value, ↓reduceIte]
          rfl
        · simp only [value, ↓reduceIte]
          rfl
  · simp only [counted, ↓reduceIte]
    rfl

theorem zipWith_replicate_length {α β γ : Type} (f : α → β → γ) (items : List α) (b : β) :
    List.zipWith f items (List.replicate items.length b) = items.map fun item => f item b := by
  induction items with
  | nil => rfl
  | cons item rest ih => exact congrArg (f item b :: ·) ih

/-- A graph is exported only with attributes for every node. -/
theorem ofFeatures_accepted {flow : Flow} {features : Option (List NodeFeature)}
    {scheme : Option Scheme} {mode : NodeLabel} {exported : Attributed}
    (accepted : (ofFeatures flow features scheme mode).result = .ok (some exported)) :
    ∃ attributes, givenAttributes flow scheme features = .ok attributes ∧
      attributes.length = flow.nodeCount ∧
      exported = ofFlow flow (labels flow mode)
        (List.zipWith nodeEntry (labels flow mode) attributes) := by
  cases features with
  | none =>
      refine ⟨List.replicate flow.nodeCount [], rfl, List.length_replicate, ?_⟩
      have shape : ofFlow flow (labels flow mode)
          ((labels flow mode).map fun label => nodeEntry label []) = exported := by
        injection accepted with accepted
        exact Option.some.inj accepted
      rw [← shape, ← length_labels flow mode, zipWith_replicate_length]
  | some features =>
      rw [result_ofFeatures] at accepted
      split at accepted
      · rename_i counted
        split at accepted
        · rename_i nodes success
          obtain ⟨attributes, given, zipped⟩ :=
            nodeEntries_ok ((length_labels flow mode).trans counted.symm) success
          cases accepted
          exact ⟨attributes, given, (Outcome.mapM_ok given).length_eq.symm.trans counted,
            by rw [zipped]⟩
        · split at accepted <;> cases accepted
      · cases accepted

end FlowCorpus.Exchange.Attributed
