import FlowCorpus.Json.Basic

/-!
# Fields with distinct names

Setting a field that is not there puts it behind the others, so that fields with distinct names are
what comes of setting them one after the other.
-/

set_option autoImplicit false

namespace FlowCorpus.Json.Fields

open FlowCorpus.Text

theorem set_of_not_mem {key : LooseText} {fields : Fields} (fresh : key ∉ fields.map Prod.fst)
    (value : Value) : set key value fields = fields ++ [(key, value)] := by
  induction fields with
  | nil => rfl
  | cons field rest ih =>
      obtain ⟨other, old⟩ := field
      simp only [List.map_cons, List.mem_cons, not_or] at fresh
      have different : other ≠ key := Ne.symm fresh.1
      simp only [set, if_neg different, ih fresh.2, List.cons_append]

theorem update_eq_append {fields changes : Fields}
    (distinct : ((fields ++ changes).map Prod.fst).Nodup) :
    fields.update changes = fields ++ changes := by
  unfold update
  induction changes generalizing fields with
  | nil => exact (List.append_nil fields).symm
  | cons change rest ih =>
      obtain ⟨key, value⟩ := change
      have fresh : key ∉ fields.map Prod.fst := by
        rw [List.map_append, List.nodup_append] at distinct
        exact fun member => distinct.2.2 key member key (by simp) rfl
      rw [List.append_cons] at distinct ⊢
      simp only [List.foldl_cons, set_of_not_mem fresh, ih distinct]

theorem get?_of_not_mem {key : LooseText} {fields : Fields} (missing : key ∉ fields.map Prod.fst) :
    fields.get? key = none := by
  unfold get?
  rw [List.lookup_eq_none_iff]
  intro field member
  rw [bne_iff_ne]
  rintro rfl
  exact missing (List.mem_map_of_mem member)

end FlowCorpus.Json.Fields
