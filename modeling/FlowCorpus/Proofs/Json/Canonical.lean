import Mathlib
import FlowCorpus.Proofs.Json.Decodable

/-!
# Canonical texts

Values have one canonical text just when they are equal up to the order of the keys of objects, at
every depth.
-/

set_option autoImplicit false

namespace FlowCorpus.Json

open FlowCorpus.Number FlowCorpus.Text

mutual

def Value.DistinctKeys : Value → Prop
  | .arr items => ItemsDistinct items
  | .obj fields => (fields.map Prod.fst).Nodup ∧ FieldsDistinct fields
  | _ => True

def ItemsDistinct : List Value → Prop
  | [] => True
  | v :: rest => v.DistinctKeys ∧ ItemsDistinct rest

def FieldsDistinct : Fields → Prop
  | [] => True
  | (_, v) :: rest => v.DistinctKeys ∧ FieldsDistinct rest

end

mutual

/-- Whether values are equal but for the order of the keys of objects, at every depth. -/
def Value.agrees : Value → Value → Prop
  | .arr items, .arr others => itemsAgree items others
  | .obj fields, .obj others => fields.length = others.length ∧ fieldsAgree fields others
  | .null, .null => True
  | .bool b, .bool c => b = c
  | .int m, .int n => m = n
  | .float x, .float y => x = y
  | .str s, .str t => s = t
  | _, _ => False

def itemsAgree : List Value → List Value → Prop
  | [], [] => True
  | v :: rest, w :: others => v.agrees w ∧ itemsAgree rest others
  | _, _ => False

/-- Whether every field of the first object agrees with that of its key in the second one. -/
def fieldsAgree : Fields → Fields → Prop
  | [], _ => True
  | (key, v) :: rest, others =>
    (∃ w, Fields.get? others key = some w ∧ v.agrees w) ∧ fieldsAgree rest others

end

/-! ## Keys in order -/

theorem sortedFields_eq_map (fields : Fields) :
    sortedFields fields = fields.map fun (key, v) => (key, v.sorted) := by
  induction fields with
  | nil => rfl
  | cons field rest ih =>
      obtain ⟨key, v⟩ := field
      rw [sortedFields, ih, List.map_cons]

theorem keys_sortedFields (fields : Fields) :
    (sortedFields fields).map Prod.fst = fields.map Prod.fst := by
  rw [sortedFields_eq_map, List.map_map]
  rfl

theorem FieldsDistinct.of_mem {fields : Fields} (distinct : FieldsDistinct fields) {key : LooseText}
    {v : Value} (member : (key, v) ∈ fields) : v.DistinctKeys := by
  induction fields with
  | nil => cases member
  | cons field rest ih =>
      obtain ⟨other, w⟩ := field
      rcases List.mem_cons.mp member with same | inside
      · cases same
        exact distinct.1
      · exact ih distinct.2 inside

theorem get?_eq_some_iff {fields : Fields} (distinct : (fields.map Prod.fst).Nodup)
    {key : LooseText} {v : Value} : fields.get? key = some v ↔ (key, v) ∈ fields := by
  induction fields with
  | nil => simp [Fields.get?]
  | cons field rest ih =>
      obtain ⟨other, w⟩ := field
      simp only [List.map_cons, List.nodup_cons] at distinct
      by_cases same : key = other
      · subst same
        have once : (key, v) ∉ rest := fun member => distinct.1 (List.mem_map_of_mem member)
        simp [Fields.get?, once, eq_comm]
      · have elsewhere : (key == other) = false := by simpa using same
        have further : Fields.get? ((other, w) :: rest) key = Fields.get? rest key := by
          simp only [Fields.get?, List.lookup_cons, elsewhere]
        simp [further, ih distinct.2, same]

theorem eq_of_key {fields : Fields} (distinct : (fields.map Prod.fst).Nodup)
    {a b : LooseText × Value} (first : a ∈ fields) (second : b ∈ fields) (same : a.1 = b.1) :
    a = b :=
  List.inj_on_of_nodup_map distinct first second same

/-- Fields with distinct keys are in one order of the keys just when they are the same fields. -/
theorem mergeSort_eq_iff {fields others : Fields} (distinct : (fields.map Prod.fst).Nodup) :
    fields.mergeSort (fun a b => a.1.le b.1) =
        others.mergeSort (fun a b => a.1.le b.1) ↔
      fields.Perm others := by
  have inOrder (l : Fields) : (l.mergeSort fun a b => a.1.le b.1).Pairwise fun a b =>
      a.1.le b.1 = true := by
    refine List.pairwise_mergeSort ?_ ?_ l
    · exact fun a b c => LooseText.le_trans
    · exact fun a b => LooseText.le_total a.1 b.1
  constructor
  · intro same
    exact (List.mergeSort_perm fields _).symm.trans (same ▸ List.mergeSort_perm others _)
  · intro permuted
    have sorted := ((List.mergeSort_perm fields fun a b => a.1.le b.1).trans permuted).trans
      (List.mergeSort_perm others fun a b => a.1.le b.1).symm
    refine List.Perm.eq_of_pairwise ?_ (inOrder fields) (inOrder others) sorted
    intro a b first second below above
    rw [List.mem_mergeSort] at first second
    exact eq_of_key distinct first (permuted.mem_iff.mpr second)
      (LooseText.le_antisymm below above)

theorem perm_iff {fields others : Fields} (distinct : (fields.map Prod.fst).Nodup) :
    fields.Perm others ↔ fields.length = others.length ∧ fields ⊆ others := by
  constructor
  · exact fun permuted => ⟨permuted.length_eq, permuted.subset⟩
  · rintro ⟨sizes, inside⟩
    exact (List.subperm_of_subset (List.Nodup.of_map _ distinct) inside).perm_of_length_le
      sizes.ge

/-! ## Values with sorted keys -/

mutual

theorem agrees_iff : ∀ (v w : Value), v.DistinctKeys → w.DistinctKeys →
    (v.agrees w ↔ v.sorted = w.sorted)
  | .arr items, w, first, second => by
      cases w with
      | arr others =>
          simp only [Value.agrees, Value.sorted, Value.arr.injEq]
          exact itemsAgree_iff items others first second
      | null | bool | int | float | str | obj => simp [Value.agrees, Value.sorted]
  | .obj fields, w, first, second => by
      cases w with
      | obj others =>
          have keys : ((sortedFields fields).map Prod.fst).Nodup := by
            rw [keys_sortedFields]
            exact first.1
          have sizes : (sortedFields fields).length = (sortedFields others).length ↔
              fields.length = others.length := by
            rw [sortedFields_eq_map, sortedFields_eq_map, List.length_map, List.length_map]
          simp only [Value.agrees, Value.sorted, Value.obj.injEq]
          rw [mergeSort_eq_iff keys, perm_iff keys, sizes,
            fieldsAgree_iff fields others first.2 second.2 second.1]
      | null | bool | int | float | str | arr => simp [Value.agrees, Value.sorted]
  | .null, w, _, _ => by cases w <;> simp [Value.agrees, Value.sorted]
  | .bool b, w, _, _ => by cases w <;> simp [Value.agrees, Value.sorted]
  | .int n, w, _, _ => by cases w <;> simp [Value.agrees, Value.sorted]
  | .float x, w, _, _ => by cases w <;> simp [Value.agrees, Value.sorted]
  | .str s, w, _, _ => by cases w <;> simp [Value.agrees, Value.sorted]

theorem itemsAgree_iff : ∀ (items others : List Value), ItemsDistinct items →
    ItemsDistinct others → (itemsAgree items others ↔ sortedItems items = sortedItems others)
  | [], [], _, _ => by simp [itemsAgree]
  | [], w :: others, _, _ => by simp [itemsAgree, sortedItems]
  | v :: rest, [], _, _ => by simp [itemsAgree, sortedItems]
  | v :: rest, w :: others, first, second => by
      simp only [itemsAgree, sortedItems, List.cons.injEq]
      rw [agrees_iff v w first.1 second.1, itemsAgree_iff rest others first.2 second.2]

theorem fieldsAgree_iff : ∀ (fields others : Fields), FieldsDistinct fields →
    FieldsDistinct others → (others.map Prod.fst).Nodup →
      (fieldsAgree fields others ↔ sortedFields fields ⊆ sortedFields others)
  | [], others, _, _, _ => by simp [fieldsAgree, sortedFields]
  | (key, v) :: rest, others, first, second, keys => by
      have here : (∃ w, Fields.get? others key = some w ∧ v.agrees w) ↔
          (key, v.sorted) ∈ sortedFields others := by
        rw [sortedFields_eq_map, List.mem_map]
        constructor
        · rintro ⟨w, found, agree⟩
          have member := (get?_eq_some_iff keys).mp found
          refine ⟨(key, w), member, ?_⟩
          rw [(agrees_iff v w first.1 (second.of_mem member)).mp agree]
        · rintro ⟨⟨other, w⟩, member, same⟩
          obtain ⟨rfl, sorted⟩ := Prod.mk.inj same
          have agree := (agrees_iff v w first.1 (second.of_mem member)).mpr sorted.symm
          exact ⟨w, (get?_eq_some_iff keys).mpr member, agree⟩
      simp only [fieldsAgree, sortedFields, List.cons_subset]
      rw [here, fieldsAgree_iff rest others first.2 second keys]

end

theorem mem_fieldsDoubles {x : Binary64} {fields : Fields} :
    x ∈ fieldsDoubles fields ↔ ∃ field ∈ fields, x ∈ field.2.doubles := by
  induction fields with
  | nil => simp [fieldsDoubles]
  | cons field rest ih =>
      obtain ⟨key, v⟩ := field
      simp [fieldsDoubles, ih]

mutual

theorem mem_doubles_sorted {x : Binary64} : ∀ v : Value, x ∈ v.sorted.doubles ↔ x ∈ v.doubles
  | .arr items => by
      simp only [Value.sorted, Value.doubles]
      exact mem_itemsDoubles_sorted items
  | .obj fields => by
      rw [Value.sorted, Value.doubles, Value.doubles, ← mem_fieldsDoubles_sorted fields]
      simp only [mem_fieldsDoubles, List.mem_mergeSort]
  | .null => by simp [Value.sorted]
  | .bool b => by simp [Value.sorted]
  | .int n => by simp [Value.sorted]
  | .float y => by simp [Value.sorted]
  | .str s => by simp [Value.sorted]

theorem mem_itemsDoubles_sorted {x : Binary64} : ∀ items : List Value,
    x ∈ itemsDoubles (sortedItems items) ↔ x ∈ itemsDoubles items
  | [] => by simp [sortedItems]
  | v :: rest => by
      simp only [sortedItems, itemsDoubles, List.mem_append]
      rw [mem_doubles_sorted v, mem_itemsDoubles_sorted rest]

theorem mem_fieldsDoubles_sorted {x : Binary64} : ∀ fields : Fields,
    x ∈ fieldsDoubles (sortedFields fields) ↔ x ∈ fieldsDoubles fields
  | [] => by simp [sortedFields]
  | (key, v) :: rest => by
      simp only [sortedFields, fieldsDoubles, List.mem_append]
      rw [mem_doubles_sorted v, mem_fieldsDoubles_sorted rest]

end

/-- Values with one canonical text are those that agree. -/
theorem canonical_eq_iff {v w : Value} (first : v.DistinctKeys) (second : w.DistinctKeys)
    (spelled : Spelled v.doubles w.doubles) : v.canonical = w.canonical ↔ v.agrees w := by
  have inside : Spelled v.sorted.doubles w.sorted.doubles := fun x left y right =>
    spelled x ((mem_doubles_sorted v).mp left) y ((mem_doubles_sorted w).mp right)
  rw [agrees_iff v w first second, Value.canonical, Value.canonical, String.ofList_inj]
  exact ⟨write_compact_injective inside, congrArg (Value.write compact)⟩

end FlowCorpus.Json
