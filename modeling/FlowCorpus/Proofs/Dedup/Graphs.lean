import Mathlib
import FlowCorpus.Dedup.Graph
import FlowCorpus.Proofs.Digest.Utf8
import FlowCorpus.Proofs.Json.Canonical

/-!
# Graphs told apart by their digests

The digest of a graph stands for the graph up to the order of the keys of its objects, as long as
the digest itself tells the canonical texts apart.
-/

set_option autoImplicit false

namespace FlowCorpus.Dedup

open FlowCorpus.Digest FlowCorpus.Json FlowCorpus.Number FlowCorpus.Text

/-- Two graphs have one digest just when they agree up to the order of the keys of objects, at every
depth. -/
theorem graphDigest_eq_iff {a b : Value} (first : a.DistinctKeys) (second : b.DistinctKeys)
    (injective : sha256 (utf8 a.canonical) = sha256 (utf8 b.canonical) →
      utf8 a.canonical = utf8 b.canonical)
    (spelled : Spelled a.doubles b.doubles) : graphDigest a = graphDigest b ↔ a.agrees b := by
  rw [← canonical_eq_iff first second spelled]
  constructor
  · intro same
    exact utf8_injective (injective same)
  · intro same
    exact congrArg (fun text => sha256 (utf8 text)) same

def halvedName : LooseText := .halved ⟨[.char 'é', .first 0x3d], rfl, rfl⟩

def nodeFields : Value :=
  .obj [("id", .int 0), ("size", .float (.finite false 6755399441055744 (-52))),
    (halvedName, .str halvedName)]

def nodeFieldsReordered : Value :=
  .obj [(halvedName, .str halvedName), ("size", .float (.finite false 6755399441055744 (-52))),
    ("id", .int 0)]

/-- A graph of one node, and the same graph with its keys in another order at two depths. -/
def oneNode : Value :=
  .obj [("nodes", .arr [nodeFields]), ("adjacency", .arr [.arr []])]

def oneNodeReordered : Value :=
  .obj [("adjacency", .arr [.arr []]), ("nodes", .arr [nodeFieldsReordered])]

theorem graphDigest_oneNode :
    oneNode.DistinctKeys ∧ oneNodeReordered.DistinctKeys ∧
      Spelled oneNode.doubles oneNodeReordered.doubles ∧ oneNode.agrees oneNodeReordered ∧
      graphDigest oneNode = graphDigest oneNodeReordered := by
  have first : oneNode.DistinctKeys := by
    simp [oneNode, nodeFields, halvedName, Value.DistinctKeys, FieldsDistinct, ItemsDistinct]
  have second : oneNodeReordered.DistinctKeys := by
    simp [oneNodeReordered, nodeFieldsReordered, halvedName, Value.DistinctKeys, FieldsDistinct,
      ItemsDistinct]
  have spelled : Spelled oneNode.doubles oneNodeReordered.doubles := by
    simp [oneNode, oneNodeReordered, nodeFields, nodeFieldsReordered, Spelled, Value.doubles,
      itemsDoubles, fieldsDoubles]
  have nodes : (Value.arr [nodeFields]).agrees (.arr [nodeFieldsReordered]) :=
    ⟨⟨rfl, ⟨_, rfl, rfl⟩, ⟨_, rfl, rfl⟩, ⟨_, rfl, rfl⟩, trivial⟩, trivial⟩
  have agree : oneNode.agrees oneNodeReordered :=
    ⟨rfl, ⟨_, rfl, nodes⟩, ⟨_, rfl, ⟨trivial, trivial⟩⟩, trivial⟩
  have texts := (canonical_eq_iff first second spelled).mpr agree
  exact ⟨first, second, spelled, agree,
    (graphDigest_eq_iff first second (fun _ => congrArg utf8 texts) spelled).mpr agree⟩

end FlowCorpus.Dedup
