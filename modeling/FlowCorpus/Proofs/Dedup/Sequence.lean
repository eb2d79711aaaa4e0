import FlowCorpus.Proofs.Dedup.Records

/-!
# Deduplication as an operation on sequences

What deduplication does to a sequence of records, whatever their digests are: the first record of
every digest is kept. A pass over what was kept changes nothing, a sequence can be taken in parts,
and its order decides no more than which of the records with one digest is kept.
-/

set_option autoImplicit false

namespace FlowCorpus.Dedup

def Kept.record (kept : Kept) : Record :=
  ⟨kept.name, kept.data, kept.triple⟩

variable {justValue : Bool} {digest : Record → String} {records : List Record}

theorem map_digest_entry (digest : Record → String) (records : List Record) :
    (records.map (Record.entry digest)).map Kept.digest = records.map digest := by
  rw [List.map_map]
  rfl

theorem statistics_firstKept (digest : Record → String) (records : List Record) :
    (firstKept (records.map (Record.entry digest))).2 =
      ⟨records.length, (records.map digest).toFinset.card⟩ := by
  simp only [firstKept, length_firsts, map_digest_entry, List.length_map]

theorem mem_digests_firstKept {d : String} :
    d ∈ (firstKept (records.map (Record.entry digest))).1.map Kept.digest ↔
      d ∈ records.map digest := by
  simp only [firstKept, mem_map_firsts, map_digest_entry]

theorem firstKept_append (digest : Record → String) (records more : List Record) :
    (firstKept ((records ++ more).map (Record.entry digest))).1 =
      (firstKept (records.map (Record.entry digest))).1 ++
        (firstKept (more.map (Record.entry digest))).1.filter fun kept =>
          kept.digest ∉ records.map digest := by
  simp only [firstKept, List.map_append, firsts_append, map_digest_entry]

theorem Digested.subset (given : Digested justValue digest records) {others : List Record}
    (inside : others ⊆ records) : Digested justValue digest others :=
  fun record member => given record (inside member)

/-- What was kept has nothing left to leave out. -/
theorem deduplicate_again (given : Digested justValue digest records) :
    ∃ again, deduplicate justValue
      ((firstKept (records.map (Record.entry digest))).1.map Kept.record) =
        .ok ((firstKept (records.map (Record.entry digest))).1, again) := by
  simp only [firstKept]
  have shape : ∀ kept ∈ firsts Kept.digest (records.map (Record.entry digest)),
      kept.record ∈ records ∧ kept.record.entry digest = kept := by
    intro kept member
    obtain ⟨record, there, rfl⟩ := List.mem_map.mp ((firsts_sublist _ _).subset member)
    exact ⟨there, rfl⟩
  have distinct := nodup_firsts Kept.digest (records.map (Record.entry digest))
  generalize firsts Kept.digest (records.map (Record.entry digest)) = kept at shape distinct ⊢
  have inside : kept.map Kept.record ⊆ records := by
    intro record member
    obtain ⟨one, there, rfl⟩ := List.mem_map.mp member
    exact (shape one there).1
  have same : (kept.map Kept.record).map (Record.entry digest) = kept := by
    rw [List.map_map]
    exact (List.map_congr_left fun one there => (shape one there).2).trans (List.map_id _)
  rw [deduplicate_of_digested (given.subset inside), same, firstKept, firsts_eq_self distinct]
  exact ⟨_, rfl⟩

/-- Where every record has a digest, of every digest the first record is kept, with its name, text
and origin, and nothing else is: the statistics count the records and their digests, a second pass
changes nothing, more records add those whose digests are new, and the order decides only which
record of a digest is kept. -/
theorem deduplicate_sequence (justValue : Bool) (digest : Record → String)
    (records more others : List Record) (given : Digested justValue digest (records ++ more))
    (same : others.Perm records) :
    ∃ kept statistics, deduplicate justValue records = .ok (kept, statistics) ∧
      (let firsts := unrepeated (fun a b => digest a == digest b) records
       firsts.Sublist records ∧
        kept = firsts.map fun record =>
          ⟨record.name, digest record, record.data, record.triple⟩) ∧
      statistics = ⟨records.length, (records.map digest).toFinset.card⟩ ∧
      0 ≤ statistics.removed ∧
      (∃ again, deduplicate justValue (kept.map Kept.record) = .ok (kept, again)) ∧
      (∃ further count total, deduplicate justValue more = .ok (further, count) ∧
        deduplicate justValue (records ++ more) =
          .ok (kept ++ further.filter (fun one => one.digest ∉ records.map digest), total)) ∧
      ∃ permuted, deduplicate justValue others = .ok (permuted, statistics) ∧
        ∀ d, d ∈ permuted.map Kept.digest ↔ d ∈ kept.map Kept.digest := by
  have here : Digested justValue digest records := given.subset (List.subset_append_left _ _)
  have there : Digested justValue digest more := given.subset (List.subset_append_right _ _)
  have digests : (others.map digest).Perm (records.map digest) := same.map _
  rcases shape : firstKept (records.map (Record.entry digest)) with ⟨kept, statistics⟩
  have entries := congrArg Prod.fst (shape.symm.trans (firstKept_entries digest records))
  have counted : statistics = ⟨records.length, (records.map digest).toFinset.card⟩ :=
    (congrArg Prod.snd shape).symm.trans (statistics_firstKept digest records)
  have again := deduplicate_again here
  have appended := firstKept_append digest records more
  rw [shape] at again appended
  have joint : deduplicate justValue (records ++ more) =
      .ok (_, (firstKept ((records ++ more).map (Record.entry digest))).2) :=
    (deduplicate_of_digested given).trans (congrArg Except.ok (Prod.ext appended rfl))
  refine ⟨kept, statistics, shape ▸ deduplicate_of_digested here, ⟨?_, entries⟩, counted, ?_,
    again, ⟨_, _, _, deduplicate_of_digested there, joint⟩, ?_⟩
  · rw [← firsts_eq_unrepeated]
    exact firsts_sublist _ records
  · have fewer : (records.map digest).toFinset.card ≤ records.length :=
      (List.toFinset_card_le _).trans (List.length_map _).le
    rw [counted]
    exact Int.sub_nonneg_of_le (Int.ofNat_le.mpr fewer)
  · refine ⟨_, (deduplicate_of_digested (here.subset same.subset)).trans
      (congrArg Except.ok (Prod.ext rfl ?_)), fun d => ?_⟩
    · dsimp only
      rw [statistics_firstKept, counted, List.toFinset_eq_of_perm _ _ digests, same.length_eq]
    · have known : d ∈ kept.map Kept.digest ↔ d ∈ records.map digest := by
        rw [← mem_digests_firstKept, shape]
      exact mem_digests_firstKept.trans (digests.mem_iff.trans known.symm)

/-- Backwards, the last of two records with one digest is kept; the numbers stay, and what was there
before adds nothing. -/
theorem deduplicate_sequence_reversed :
    Digested false (Record.digest false) (sharedText ++ sharedText) ∧
      sharedText.reverse.Perm sharedText ∧
      ∃ kept, deduplicate false sharedText = .ok (kept, ⟨3, 2⟩) ∧
        kept = [⟨"helper", Record.digest false ⟨"helper", "ret\x00", "arm"⟩, "ret\x00", "arm"⟩,
          ⟨"main", Record.digest false ⟨"main", "ret\x00", "arm"⟩, "ret\x00", "arm"⟩] ∧
        (∃ total, deduplicate false (sharedText ++ sharedText) = .ok (kept, total)) ∧
        deduplicate false sharedText.reverse =
          .ok ([⟨"main", Record.digest false ⟨"main", "ret\x00", "x86"⟩, "ret\x00", "x86"⟩,
            ⟨"helper", Record.digest false ⟨"helper", "ret\x00", "arm"⟩, "ret\x00", "arm"⟩],
              ⟨3, 2⟩) := by
  have given : Digested false (Record.digest false) (sharedText ++ sharedText) :=
    digested_iff.mpr (by decide)
  have perm : sharedText.reverse.Perm sharedText := List.reverse_perm sharedText
  obtain ⟨kept, statistics, passed, ⟨-, entries⟩, counted, -, -,
    ⟨further, count, total, second, all⟩, permuted, backwards, -⟩ :=
    deduplicate_sequence false (Record.digest false) sharedText sharedText sharedText.reverse given
      perm
  have literal := entries.trans (show _ =
    [⟨"helper", Record.digest false ⟨"helper", "ret\x00", "arm"⟩, "ret\x00", "arm"⟩,
      ⟨"main", Record.digest false ⟨"main", "ret\x00", "arm"⟩, "ret\x00", "arm"⟩] by
        decide +kernel)
  have numbers : statistics = ⟨3, 2⟩ := counted.trans (by decide +kernel)
  obtain rfl : kept = further := congrArg Prod.fst (Except.ok.inj (passed.symm.trans second))
  have nothing : kept.filter (fun one =>
      one.digest ∉ sharedText.map (Record.digest false)) = [] := by
    rw [literal]
    decide +kernel
  rw [nothing, List.append_nil] at all
  exact ⟨given, perm, kept, numbers ▸ passed, literal, ⟨total, all⟩, by decide +kernel⟩

end FlowCorpus.Dedup
