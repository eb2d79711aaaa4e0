import Mathlib.Data.Finset.Card
import Mathlib.Data.List.Induction
import FlowCorpus.Dedup.Record

/-!
# The first item of every kind

Going through items and leaving out those whose key was seen keeps the items that no earlier item
agrees with.
-/

set_option autoImplicit false

namespace FlowCorpus.Dedup

variable {α β : Type}

def unrepeated (same : α → α → Bool) (items : List α) : List α :=
  (items.zipIdx.filter fun (item, place) =>
    !(items.take place).any fun earlier => same earlier item).map Prod.fst

theorem unrepeated_concat (same : α → α → Bool) (items : List α) (item : α) :
    unrepeated same (items ++ [item]) =
      unrepeated same items ++
        if items.any fun earlier => same earlier item then [] else [item] := by
  have before : ∀ entry ∈ items.zipIdx,
      (items ++ [item]).take entry.2 = items.take entry.2 := by
    rintro ⟨other, place⟩ member
    have inside := (List.mem_zipIdx member).2.1
    exact List.take_append_of_le_length (by omega)
  have kept : items.zipIdx.filter (fun (other, place) =>
      !((items ++ [item]).take place).any fun earlier => same earlier other) =
        items.zipIdx.filter fun (other, place) =>
          !(items.take place).any fun earlier => same earlier other :=
    List.filter_congr fun entry member => by simp only [before entry member]
  unfold unrepeated
  rw [List.zipIdx_append, List.filter_append, List.map_append, kept]
  simp only [List.zipIdx_singleton, List.filter_cons, List.filter_nil, Nat.zero_add,
    List.take_left]
  cases items.any fun earlier => same earlier item <;> rfl

theorem unrepeated_congr {same alike : α → α → Bool} {items : List α}
    (agree : ∀ a ∈ items, ∀ b ∈ items, same a b = alike a b) :
    unrepeated same items = unrepeated alike items := by
  induction items using List.reverseRecOn with
  | nil => rfl
  | append_singleton rest item ih =>
      have earlier : rest.any (fun a => same a item) = rest.any fun a => alike a item := by
        rw [Bool.eq_iff_iff, List.any_eq_true, List.any_eq_true]
        refine exists_congr fun a => and_congr_right fun member => ?_
        rw [agree a (List.mem_append_left [item] member) item (by simp)]
      rw [unrepeated_concat, unrepeated_concat, earlier, ih]
      intro a first b second
      exact agree a (List.mem_append_left _ first) b (List.mem_append_left _ second)

/-- Among the items that stay, an item is repeated as it is among all of them, where items that do
not stay are the same as none that does. -/
theorem unrepeated_filter {same alike : α → α → Bool} {keep : α → Bool} {items : List α}
    (agree : ∀ a ∈ items, ∀ b ∈ items, keep b = true → alike a b = (keep a && same a b)) :
    unrepeated same (items.filter keep) = (unrepeated alike items).filter keep := by
  induction items using List.reverseRecOn with
  | nil => rfl
  | append_singleton rest item ih =>
      have before : unrepeated same (rest.filter keep) = (unrepeated alike rest).filter keep := by
        apply ih
        intro a first b second
        exact agree a (List.mem_append_left _ first) b (List.mem_append_left _ second)
      rw [List.filter_append, unrepeated_concat, List.filter_append, ← before]
      cases kept : keep item with
      | false =>
          rw [List.filter_cons_of_neg (by simp [kept]), List.filter_nil, List.append_nil]
          split <;> simp [kept]
      | true =>
          have earlier : (rest.filter keep).any (fun a => same a item) =
              rest.any fun a => alike a item := by
            rw [List.any_filter, Bool.eq_iff_iff, List.any_eq_true, List.any_eq_true]
            refine exists_congr fun a => and_congr_right fun member => ?_
            rw [agree a (List.mem_append_left _ member) item (by simp) kept]
          rw [List.filter_cons_of_pos kept, List.filter_nil, unrepeated_concat, earlier]
          split <;> simp [kept]

theorem firstsAfter_concat (key : α → String) (seen : List String) (items : List α) (item : α) :
    firstsAfter key seen (items ++ [item]) =
      firstsAfter key seen items ++
        if seen.contains (key item) || items.any fun earlier => key earlier == key item then []
        else [item] := by
  induction items generalizing seen with
  | nil => simp [firstsAfter]
  | cons first rest ih =>
      simp only [List.cons_append, firstsAfter, List.any_cons]
      by_cases known : key first ∈ seen
      · -- An item with the key of the first one was seen, as that one was.
        have absorbed : key first = key item → key item ∈ seen := fun same => same ▸ known
        by_cases same : key first = key item
        · simp [known, ih, absorbed same]
        · simp [known, ih, same]
      · by_cases same : key first = key item
        · simp [same ▸ known, same, ih]
        · simp [known, same, Ne.symm same, ih]

theorem firsts_concat (key : α → String) (items : List α) (item : α) :
    firsts key (items ++ [item]) =
      firsts key items ++
        if items.any fun earlier => key earlier == key item then [] else [item] :=
  firstsAfter_concat key [] items item

theorem firsts_sublist (key : α → String) (items : List α) : (firsts key items).Sublist items := by
  induction items using List.reverseRecOn with
  | nil => exact .slnil
  | append_singleton rest item ih =>
      rw [firsts_concat]
      refine ih.append ?_
      split
      · exact List.nil_sublist _
      · exact List.Sublist.refl _

/-- No two first items have one key. -/
theorem nodup_firsts (key : α → String) (items : List α) : ((firsts key items).map key).Nodup := by
  induction items using List.reverseRecOn with
  | nil => exact List.nodup_nil
  | append_singleton rest item ih =>
      rw [firsts_concat]
      split
      · rwa [List.append_nil]
      · rename_i fresh
        rw [List.map_append, List.nodup_append]
        refine ⟨ih, by simp, ?_⟩
        rintro k member other last rfl
        obtain rfl := List.mem_singleton.mp last
        obtain ⟨earlier, found, same⟩ := List.mem_map.mp member
        refine fresh (List.any_eq_true.mpr ⟨earlier, (firsts_sublist key rest).subset found, ?_⟩)
        exact beq_iff_eq.mpr same

/-- Every key is that of a first item. -/
theorem mem_map_firsts {key : α → String} {items : List α} {k : String} :
    k ∈ (firsts key items).map key ↔ k ∈ items.map key := by
  induction items using List.reverseRecOn with
  | nil => exact Iff.rfl
  | append_singleton rest item ih =>
      rw [firsts_concat, List.map_append, List.map_append, List.mem_append, List.mem_append, ih]
      split
      · rename_i known
        obtain ⟨earlier, member, same⟩ := List.any_eq_true.mp known
        refine ⟨fun there => .inl (there.resolve_right (by simp)), fun there => .inl ?_⟩
        rcases there with before | last
        · exact before
        · obtain rfl := List.mem_singleton.mp last
          exact List.mem_map.mpr ⟨earlier, member, beq_iff_eq.mp same⟩
      · exact Iff.rfl

theorem nodup_firsts_id (names : List String) : (firsts id names).Nodup := by
  have distinct := nodup_firsts id names
  rwa [List.map_id] at distinct

theorem mem_firsts_id {names : List String} {name : String} :
    name ∈ firsts id names ↔ name ∈ names := by
  have same : name ∈ (firsts id names).map id ↔ name ∈ names.map id := mem_map_firsts
  rwa [List.map_id, List.map_id] at same

/-- The items behind others stay only if the others do not have their keys. -/
theorem firsts_append (key : α → String) (items others : List α) :
    firsts key (items ++ others) =
      firsts key items ++ (firsts key others).filter fun other => key other ∉ items.map key := by
  induction others using List.reverseRecOn with
  | nil => simp [firsts, firstsAfter]
  | append_singleton rest item ih =>
      have known : items.any (fun earlier => key earlier == key item) = true ↔
          key item ∈ items.map key := by simp
      rw [← List.append_assoc, firsts_concat, firsts_concat, ih, List.filter_append,
        List.append_assoc, List.any_append]
      by_cases before : key item ∈ items.map key
      · have dropped : [item].filter (fun other => decide (key other ∉ items.map key)) = [] :=
          List.filter_cons_of_neg (by simpa using before)
        rw [known.mpr before, Bool.true_or, if_pos rfl]
        split
        · rfl
        · rw [dropped]
      · have stays : [item].filter (fun other => decide (key other ∉ items.map key)) = [item] :=
          List.filter_cons_of_pos (by simpa using before)
        rw [Bool.eq_false_iff.mpr (before ∘ known.mp), Bool.false_or]
        split
        · rfl
        · rw [stays]

theorem length_firsts (key : α → String) (items : List α) :
    (firsts key items).length = (items.map key).toFinset.card := by
  have same : ((firsts key items).map key).toFinset = (items.map key).toFinset := by
    ext k
    rw [List.mem_toFinset, List.mem_toFinset, mem_map_firsts]
  rw [← same, List.toFinset_card_of_nodup (nodup_firsts key items), List.length_map]

theorem firsts_eq_self {key : α → String} {items : List α} (distinct : (items.map key).Nodup) :
    firsts key items = items := by
  induction items using List.reverseRecOn with
  | nil => rfl
  | append_singleton rest item ih =>
      rw [List.map_append, List.nodup_append] at distinct
      obtain ⟨before, -, apart⟩ := distinct
      rw [firsts_concat, ih before, if_neg]
      intro known
      obtain ⟨earlier, member, same⟩ := List.any_eq_true.mp known
      exact apart _ (List.mem_map_of_mem member) _ List.mem_cons_self (beq_iff_eq.mp same)

theorem firsts_eq_unrepeated (key : α → String) (items : List α) :
    firsts key items = unrepeated (fun earlier item => key earlier == key item) items := by
  induction items using List.reverseRecOn with
  | nil => rfl
  | append_singleton rest item ih =>
      rw [unrepeated_concat, ← ih, firsts_concat]

theorem firsts_map (key : β → String) (view : α → β) (items : List α) :
    firsts key (items.map view) = (firsts (fun item => key (view item)) items).map view := by
  have run (seen : List String) : firstsAfter key seen (items.map view) =
      (firstsAfter (fun item => key (view item)) seen items).map view := by
    induction items generalizing seen with
    | nil => rfl
    | cons item rest ih =>
        simp only [List.map_cons, firstsAfter, ih]
        cases seen.contains (key (view item)) <;> rfl
  exact run []

end FlowCorpus.Dedup
