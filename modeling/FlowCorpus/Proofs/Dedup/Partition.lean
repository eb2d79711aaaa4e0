import Mathlib
import FlowCorpus.Proofs.Dedup.LeftOut
import FlowCorpus.Proofs.Dedup.Sequence
import FlowCorpus.Proofs.Dedup.Stems

/-!
# Corpora as partitions

The groups of a corpus share out its files: every file is in one group, in its place, and none is
lost. What the groups of records count adds up to what the files hold, told apart by binary. One
file with a record that has no digest costs all groups of records what they hold.
-/

set_option autoImplicit false

/-! ## The order of files -/

namespace FlowCorpus.Storage

namespace Path

theorem namesLe_total (p q : List String) : (namesLe p q || namesLe q p) = true := by
  induction p generalizing q with
  | nil => rfl
  | cons first rest ih =>
      cases q with
      | nil => rfl
      | cons other more =>
          simp only [namesLe]
          by_cases same : first = other
          · rw [if_pos same, if_pos same.symm]
            exact ih more
          · rw [if_neg same, if_neg (Ne.symm same), Bool.or_eq_true, decide_eq_true_eq,
              decide_eq_true_eq]
            exact lt_or_gt_of_ne same

theorem namesLe_trans {p q r : List String} (first : namesLe p q = true)
    (second : namesLe q r = true) : namesLe p r = true := by
  induction p generalizing q r with
  | nil => rfl
  | cons a as ih =>
      cases q with
      | nil => cases first
      | cons b bs =>
          cases r with
          | nil => cases second
          | cons c cs =>
              simp only [namesLe] at first second ⊢
              split at first
              · subst a
                split at second
                · rw [if_pos (by assumption)]
                  exact ih first second
                · rw [if_neg (by assumption)]
                  exact second
              · rw [decide_eq_true_eq] at first
                split at second
                · subst c
                  rw [if_neg (by assumption), decide_eq_true_eq]
                  exact first
                · rw [decide_eq_true_eq] at second
                  have less := first.trans second
                  rw [if_neg less.ne, decide_eq_true_eq]
                  exact less

end Path

theorem Tree.ordered_filesBelow {tree : Tree} {directory : Path} {deep : Bool} {files : List Path}
    (listed : tree.filesBelow directory deep = .ok files) :
    files.Pairwise fun p q => p.le q = true := by
  obtain ⟨isThere, -, rest⟩ := Outcome.bind_ok listed
  cases isThere with
  | false =>
      cases rest
      exact .nil
  | true =>
      obtain ⟨location, -, result⟩ := Outcome.bind_ok rest
      cases result
      apply List.pairwise_mergeSort
      · intro p q r
        exact Path.namesLe_trans
      · intro p q
        exact Path.namesLe_total _ _

end FlowCorpus.Storage

namespace FlowCorpus.Dedup

open FlowCorpus.Batch FlowCorpus.Json FlowCorpus.Storage FlowCorpus.Text

/-! ## Items by key -/

/-- Items of all keys, one key after the other, are all items. -/
theorem perm_flatMap_filter {α κ : Type} [BEq κ] [LawfulBEq κ] (key : α → κ)
    {keys : List κ} (distinct : keys.Nodup) {items : List α}
    (covered : ∀ item ∈ items, key item ∈ keys) :
    (keys.flatMap fun k => items.filter fun item => key item == k).Perm items := by
  induction keys generalizing items with
  | nil =>
      have none : items = [] := by
        apply List.eq_nil_iff_forall_not_mem.mpr
        intro item member
        exact absurd (covered item member) List.not_mem_nil
      rw [none]
      exact .nil
  | cons k rest ih =>
      obtain ⟨fresh, others⟩ := List.nodup_cons.mp distinct
      let remaining := items.filter fun item => !(key item == k)
      have left : ∀ item ∈ remaining, key item ∈ rest := by
        intro item member
        obtain ⟨there, other⟩ := List.mem_filter.mp member
        apply (List.mem_cons.mp (covered item there)).resolve_left
        simpa using other
      have same : (rest.flatMap fun l => items.filter fun item => key item == l) =
          rest.flatMap fun l => remaining.filter fun item => key item == l := by
        apply List.flatMap_congr
        intro l member
        rw [List.filter_filter]
        apply List.filter_congr
        intro item _
        by_cases here : key item = l
        · have other : l ≠ k := by
            rintro rfl
            exact fresh member
          simp [here, other]
        · simp [here]
      -- The first key takes its items out; under the other keys none of them was listed.
      rw [List.flatMap_cons, same]
      exact ((ih others left).append_left _).trans (List.filter_append_perm _ items)

/-- Pairs of a key and a value are counted key by key. -/
theorem sum_card_filter {κ : Type} [DecidableEq κ] {keys : List κ} (distinct : keys.Nodup)
    {pairs : List (κ × String)} (covered : ∀ pair ∈ pairs, pair.1 ∈ keys) :
    (keys.map fun k =>
      ((pairs.filter fun pair => pair.1 == k).map Prod.snd).toFinset.card).sum =
      pairs.toFinset.card := by
  have fibers : pairs.toFinset.card =
      ∑ k ∈ keys.toFinset, (pairs.toFinset.filter fun pair => pair.1 = k).card := by
    apply Finset.card_eq_sum_card_fiberwise
    intro pair member
    simpa using covered pair (by simpa using member)
  rw [fibers, List.sum_toFinset _ distinct]
  congr 1
  apply List.map_congr_left
  intro k _
  have image : ((pairs.filter fun pair => pair.1 == k).map Prod.snd).toFinset =
      (pairs.toFinset.filter fun pair => pair.1 = k).image Prod.snd := by
    ext value
    simp
  rw [image]
  -- Under one key, pairs are told apart by their values.
  apply Finset.card_image_of_injOn
  intro p first q second same
  have left : p.1 = k := (Finset.mem_filter.mp first).2
  have right : q.1 = k := (Finset.mem_filter.mp second).2
  exact Prod.ext (left.trans right.symm) same

/-! ## Corpora of records -/

def recordsOf (held : RecordFile → Option Texts) (files : List RecordFile) : List Record :=
  files.flatMap fun file => file.recordsOf ((held file).getD [])

def unloadedOf (held : RecordFile → Option Texts) (files : List RecordFile) : List Path :=
  (files.filter fun file => (held file).isNone).map RecordFile.path

def digestsOf (held : RecordFile → Option Texts) (justValue : Bool) (files : List RecordFile) :
    List (String × String) :=
  files.flatMap fun file =>
    (recordsOf held [file]).map fun record => (file.binary, record.digest justValue)

/-- The groups share out the files of a corpus, in their order; the records of every group are
deduplicated for themselves, and nothing is lost or counted twice over all groups. -/
structure Accounted (corpus : RecordCorpus) (justValue : Bool) (held : RecordFile → Option Texts)
    (groups : List RecordGroup) : Prop where
  binaries : groups.map RecordGroup.binary =
    unrepeated (fun earlier binary => earlier == binary) (corpus.files.map RecordFile.binary)
  ordered : ∀ group ∈ groups, (corpus.filesOf group.binary).Sublist corpus.files
  shared : (groups.flatMap fun group => corpus.filesOf group.binary).Perm corpus.files
  digested : Digested justValue (Record.digest justValue) (recordsOf held corpus.files)
  deduplicated : ∀ group ∈ groups, deduplicate justValue
    (recordsOf held (corpus.filesOf group.binary)) = .ok (group.kept, group.statistics)
  unloaded : ∀ group ∈ groups, group.failed = unloadedOf held (corpus.filesOf group.binary)
  failed : (groups.flatMap RecordGroup.failed).Perm (unloadedOf held corpus.files)
  total : (groups.map fun group => group.statistics.total).sum =
    (recordsOf held corpus.files).length
  kept : (groups.map fun group => group.kept.length).sum =
    (digestsOf held justValue corpus.files).toFinset.card

def heldGroup (corpus : RecordCorpus) (justValue : Bool) (directory : Option Path)
    (held : RecordFile → Option Texts) (binary : String) : RecordGroup :=
  recordGroup directory binary
    ⟨(recordsOf held (corpus.filesOf binary)).map (Record.entry (Record.digest justValue)),
      unloadedOf held (corpus.filesOf binary)⟩

section

variable (corpus : RecordCorpus) (justValue : Bool) (directory : Option Path)
  (held : RecordFile → Option Texts)

theorem nodup_binaries : corpus.binaries.Nodup :=
  nodup_firsts_id _

theorem binary_mem_binaries {file : RecordFile} (member : file ∈ corpus.files) :
    file.binary ∈ corpus.binaries :=
  mem_firsts_id.mpr (List.mem_map_of_mem member)

theorem perm_filesOf : (corpus.binaries.flatMap corpus.filesOf).Perm corpus.files :=
  perm_flatMap_filter RecordFile.binary (nodup_binaries corpus)
    fun _ member => binary_mem_binaries corpus member

/-- The digests of the records under one binary are those of the records in its files. -/
theorem map_snd_digestsOf (files : List RecordFile) (binary : String) :
    ((digestsOf held justValue files).filter fun pair => pair.1 == binary).map Prod.snd =
      (recordsOf held (files.filter fun file => file.binary == binary)).map
        (Record.digest justValue) := by
  induction files with
  | nil => rfl
  | cons file rest ih =>
      have pairs : digestsOf held justValue (file :: rest) =
          (recordsOf held [file]).map (fun record => (file.binary, record.digest justValue)) ++
            digestsOf held justValue rest := List.flatMap_cons
      rw [pairs, List.filter_append, List.map_append, ih]
      by_cases same : file.binary = binary
      · have first : recordsOf held (file :: rest.filter fun file => file.binary == binary) =
            recordsOf held [file] ++
              recordsOf held (rest.filter fun file => file.binary == binary) := by
          simp [recordsOf]
        rw [List.filter_cons_of_pos (by simp [same]), first, List.map_append,
          List.filter_eq_self.mpr (by simp [same]), List.map_map]
        rfl
      · rw [List.filter_cons_of_neg (by simp [same]), List.filter_eq_nil_iff.mpr (by simp [same])]
        rfl

theorem fst_mem_binaries {pair : String × String}
    (member : pair ∈ digestsOf held justValue corpus.files) : pair.1 ∈ corpus.binaries := by
  obtain ⟨file, there, inside⟩ := List.mem_flatMap.mp member
  obtain ⟨record, -, rfl⟩ := List.mem_map.mp inside
  exact binary_mem_binaries corpus there

theorem recordsOf_filesOf_subset (binary : String) :
    recordsOf held (corpus.filesOf binary) ⊆ recordsOf held corpus.files := by
  intro record member
  obtain ⟨file, there, inside⟩ := List.mem_flatMap.mp member
  exact List.mem_flatMap.mpr ⟨file, List.mem_of_mem_filter there, inside⟩

/-- The groups of all binaries account for the files when every record has a digest. -/
theorem accounted_heldGroups
    (digested : Digested justValue (Record.digest justValue) (recordsOf held corpus.files)) :
    Accounted corpus justValue held
      (corpus.binaries.map (heldGroup corpus justValue directory held)) where
  binaries := by
    rw [List.map_map]
    exact (List.map_id _).trans (firsts_eq_unrepeated id _)
  ordered := by
    intro group _
    exact List.filter_sublist
  shared := by
    rw [List.flatMap_map]
    exact perm_filesOf corpus
  digested
  deduplicated := by
    intro group member
    obtain ⟨binary, -, rfl⟩ := List.mem_map.mp member
    have here := digested.subset (recordsOf_filesOf_subset corpus held binary)
    exact deduplicate_of_digested here
  unloaded := by
    intro group member
    obtain ⟨binary, -, rfl⟩ := List.mem_map.mp member
    rfl
  failed := by
    have parts : (corpus.binaries.map (heldGroup corpus justValue directory held)).flatMap
        RecordGroup.failed = unloadedOf held (corpus.binaries.flatMap corpus.filesOf) := by
      unfold unloadedOf
      rw [List.flatMap_map, List.filter_flatMap, List.map_flatMap]
      rfl
    rw [parts]
    exact ((perm_filesOf corpus).filter _).map _
  total := by
    have whole : (recordsOf held (corpus.binaries.flatMap corpus.filesOf)).length =
        (recordsOf held corpus.files).length := ((perm_filesOf corpus).flatMap_right _).length_eq
    rw [← whole, recordsOf, List.flatMap_assoc, List.length_flatMap, Nat.cast_list_sum,
      List.map_map, List.map_map]
    congr 1
    apply List.map_congr_left
    intro binary _
    simp only [Function.comp_apply, heldGroup, recordGroup, firstKept, List.length_map]
    rfl
  kept := by
    rw [← sum_card_filter (nodup_binaries corpus)
      fun pair member => fst_mem_binaries corpus justValue held member, List.map_map]
    congr 1
    apply List.map_congr_left
    intro binary _
    rw [map_snd_digestsOf]
    simp only [Function.comp_apply, heldGroup, recordGroup, firstKept, length_firsts,
      map_digest_entry]
    rfl

end

/-! ## Turns of groups of records -/

def heldIn (turns : List (Tree.Turn String (Except Fault RecordGroup))) (file : RecordFile) :
    Option Texts :=
  (turns.find? fun turn => turn.item == file.binary).bind fun turn =>
    textsIn? turn.before file.path

theorem heldIn_of_mem {turns : List (Tree.Turn String (Except Fault RecordGroup))}
    (distinct : (turns.map Tree.Turn.item).Nodup)
    {turn : Tree.Turn String (Except Fault RecordGroup)} (member : turn ∈ turns)
    {file : RecordFile} (same : file.binary = turn.item) :
    heldIn turns file = textsIn? turn.before file.path := by
  cases found : turns.find? fun turn => turn.item == file.binary with
  | none =>
      have other := List.find?_eq_none.mp found turn member
      exact absurd (beq_iff_eq.mpr same.symm) other
  | some first =>
      have chosen : first.item = file.binary := by simpa using List.find?_some found
      have item : first.item = turn.item := chosen.trans same
      obtain rfl := List.inj_on_of_nodup_map distinct (List.mem_of_find?_eq_some found) member item
      unfold heldIn
      rw [found]
      rfl

theorem recordsOf_congr {held other : RecordFile → Option Texts} {files : List RecordFile}
    (same : ∀ file ∈ files, held file = other file) :
    recordsOf held files = recordsOf other files ∧
      unloadedOf held files = unloadedOf other files := by
  constructor
  · apply List.flatMap_congr
    intro file member
    rw [same file member]
  · apply congrArg (List.map RecordFile.path)
    apply List.filter_congr
    intro file member
    rw [same file member]

/-- Files that do not cost the group are gathered: the records of those that load, and the paths of
the other ones. -/
theorem foldlM_gatherIn {justValue : Bool} {tree : Tree} {files : List RecordFile}
    (free : ∀ file ∈ files, recordCost? justValue tree file = none) (records : List Kept)
    (failed : List Path) :
    files.foldlM (gatherIn justValue tree) ⟨records, failed⟩ =
      .ok ⟨records ++ (recordsOf (fun file => textsIn? tree file.path) files).map
          (Record.entry (Record.digest justValue)),
        failed ++ unloadedOf (fun file => textsIn? tree file.path) files⟩ := by
  induction files generalizing records failed with
  | nil =>
      rw [recordsOf, unloadedOf, List.flatMap_nil, List.filter_nil, List.map_nil, List.map_nil,
        List.append_nil, List.append_nil]
      rfl
  | cons file rest ih =>
      rw [List.forall_mem_cons] at free
      obtain ⟨costs, others⟩ := free
      rw [List.foldlM_cons]
      cases holds : textsIn? tree file.path with
      | some texts =>
          have step : gatherIn justValue tree ⟨records, failed⟩ file =
              .ok ⟨records ++ entriesOf justValue file texts, failed⟩ := by
            rw [gatherIn, costs, holds]
            rfl
          rw [step]
          refine (ih others _ _).trans ?_
          simp [recordsOf, unloadedOf, holds, entriesOf]
      | none =>
          have step : gatherIn justValue tree ⟨records, failed⟩ file =
              .ok ⟨records, failed ++ [file.path]⟩ := by
            rw [gatherIn, costs, holds]
          rw [step]
          refine (ih others _ _).trans ?_
          simp [recordsOf, unloadedOf, holds, RecordFile.recordsOf]

theorem putRecords_ok {directory : Option Path} {binary : String} {gathered : Gathered}
    {tree : Tree} {group : RecordGroup}
    (put : (putRecords directory binary gathered tree).1 = .ok group) :
    group = recordGroup directory binary gathered := by
  cases directory with
  | none => exact (Except.ok.inj put).symm
  | some d =>
      simp only [putRecords] at put
      obtain ⟨_, -, same⟩ := Outcome.map_ok put
      exact same.symm

def Costless (corpus : RecordCorpus) (justValue : Bool)
    (turn : Tree.Turn String (Except Fault RecordGroup)) : Prop :=
  ∀ file ∈ corpus.filesOf turn.item, recordCost? justValue turn.before file = none

section

variable {corpus : RecordCorpus} {justValue : Bool} {directory : Option Path}
  {turn : Tree.Turn String (Except Fault RecordGroup)}
  (ran : groupAction (gatherIn justValue) (putRecords directory turn.item) ⟨[], []⟩
    (corpus.filesOf turn.item) turn.before = (turn.result, turn.after))

include ran

theorem put_of_turn (free : Costless corpus justValue turn) :
    let held := fun file : RecordFile => textsIn? turn.before file.path
    (putRecords directory turn.item
      ⟨(recordsOf held (corpus.filesOf turn.item)).map (Record.entry (Record.digest justValue)),
        unloadedOf held (corpus.filesOf turn.item)⟩ turn.before).1 = turn.result := by
  unfold groupAction at ran
  rw [foldlM_gatherIn free] at ran
  exact congrArg Prod.fst ran

/-- A group whose files do not cost it can only fail to be written. -/
theorem fault_of_turn (free : Costless corpus justValue turn) {fault : Fault}
    (stopped : turn.result = .error fault) : directory.isSome = true ∧ Tree.IsStoreFault fault :=
  (gathering_dedupRecords justValue directory turn.item).stopped _ turn.before fault
    ((put_of_turn ran free).trans stopped)

theorem costless_of_turn {group : RecordGroup} (done : turn.result = .ok group) :
    Costless corpus justValue turn := by
  have groupTurn := (gathering_dedupRecords justValue directory turn.item).groupTurn ran
  unfold Costless
  rw [← List.findSome?_eq_none_iff]
  cases first : (corpus.filesOf turn.item).findSome? (recordCost? justValue turn.before) with
  | none => rfl
  | some fault =>
      obtain ⟨lost, -⟩ := groupTurn.lost fault first
      rw [done] at lost
      cases lost

/-- A group that comes out is that of what its files hold. -/
theorem group_of_turn {group : RecordGroup} (done : turn.result = .ok group) :
    group = heldGroup corpus justValue directory (fun file => textsIn? turn.before file.path)
      turn.item := by
  have free := costless_of_turn ran done
  exact putRecords_ok ((put_of_turn ran free).trans done)

end

section

variable {corpus : RecordCorpus} {justValue : Bool} {directory : Option Path}
  {turns : List (Tree.Turn String (Except Fault RecordGroup))}
  (items : turns.map Tree.Turn.item = corpus.binaries)
  (steps : ∀ turn ∈ turns, groupAction (gatherIn justValue) (putRecords directory turn.item)
    ⟨[], []⟩ (corpus.filesOf turn.item) turn.before = (turn.result, turn.after))

include items in
theorem exists_turn {file : RecordFile} (member : file ∈ corpus.files) :
    ∃ turn ∈ turns, turn.item = file.binary := by
  have known : file.binary ∈ turns.map Tree.Turn.item := by
    rw [items]
    exact binary_mem_binaries corpus member
  exact List.mem_map.mp known

include items in
theorem heldIn_of_turn {turn : Tree.Turn String (Except Fault RecordGroup)} (member : turn ∈ turns)
    {file : RecordFile} (binary : file.binary = turn.item) :
    heldIn turns file = textsIn? turn.before file.path := by
  have distinct : (turns.map Tree.Turn.item).Nodup := by
    rw [items]
    exact nodup_binaries corpus
  exact heldIn_of_mem distinct member binary

include steps in
/-- Without an output directory every turn finds the tree as it was. -/
theorem before_of_unwritten (none : directory = none) {tree later : Tree}
    (chain : Tree.Turns tree turns later) : ∀ turn ∈ turns, tree = turn.before := by
  apply chain.before _ rfl
  intro turn member start
  have outcome :=
    (gathering_dedupRecords justValue directory turn.item).groupTurn (steps turn member)
  rw [outcome.idle (by rw [none]; rfl)]
  exact start

include items in
theorem heldIn_of_unwritten {tree : Tree} (before : ∀ turn ∈ turns, tree = turn.before)
    {file : RecordFile} (member : file ∈ corpus.files) :
    heldIn turns file = textsIn? tree file.path := by
  obtain ⟨turn, there, binary⟩ := exists_turn items member
  rw [heldIn_of_turn items there binary.symm, before turn there]

include items in
/-- Where no file costs its group, every record has a digest. -/
theorem digested_heldIn (free : ∀ turn ∈ turns, Costless corpus justValue turn) :
    Digested justValue (Record.digest justValue) (recordsOf (heldIn turns) corpus.files) := by
  rw [digested_iff]
  intro record member
  obtain ⟨file, there, inside⟩ := List.mem_flatMap.mp member
  obtain ⟨turn, ran, binary⟩ := exists_turn items there
  have costs := free turn ran file (List.mem_filter.mpr ⟨there, beq_iff_eq.mpr binary.symm⟩)
  rw [heldIn_of_turn items ran binary.symm] at inside
  cases holds : textsIn? turn.before file.path with
  | none =>
      rw [holds] at inside
      cases inside
  | some texts =>
      rw [holds] at inside
      simp only [recordCost?, holds, Option.or_eq_none_iff, Option.bind_some,
        List.findSome?_eq_none_iff] at costs
      exact costs.2 record inside

include steps in
/-- No file costs its group in a batch that comes out. -/
theorem costless_of_turns {groups : List RecordGroup}
    (done : (turns.map Tree.Turn.result).mapM id = .ok groups) :
    ∀ turn ∈ turns, Costless corpus justValue turn := by
  intro turn member
  have each := Outcome.succeeds_mapM.mp ⟨groups, done⟩
  obtain ⟨group, result⟩ := each turn.result (List.mem_map_of_mem member)
  exact costless_of_turn (steps turn member) result

include items steps in
/-- The groups that come out of a batch are those of what the files hold in their turns. -/
theorem groups_of_turns {groups : List RecordGroup}
    (done : (turns.map Tree.Turn.result).mapM id = .ok groups) :
    groups = corpus.binaries.map (heldGroup corpus justValue directory (heldIn turns)) := by
  have each : List.Forall₂ (fun turn group => turn.result = .ok group) turns groups :=
    List.forall₂_map_left_iff.mp (Outcome.mapM_ok done)
  have same : List.Forall₂ (fun turn group =>
      heldGroup corpus justValue directory (heldIn turns) turn.item = group) turns groups := by
    -- The files of a group are read in the turn of this group and in no other one.
    refine ((List.forall₂_and_left _ _).mpr ⟨fun turn member => member, each⟩).imp ?_
    rintro turn group ⟨member, result⟩
    have held : ∀ file ∈ corpus.filesOf turn.item,
        heldIn turns file = textsIn? turn.before file.path := by
      intro file there
      have binary : file.binary = turn.item := by simpa using (List.mem_filter.mp there).2
      exact heldIn_of_turn items member binary
    obtain ⟨records, failed⟩ := recordsOf_congr held
    rw [group_of_turn (steps turn member) result, heldGroup, heldGroup, records, failed]
  have equal := List.forall₂_map_left_iff.mpr same
  rw [List.forall₂_eq_eq_eq] at equal
  rw [← equal, ← items, List.map_map]
  rfl

include steps in
/-- A batch in which no file costs its group comes out, unless an output cannot be written. -/
theorem ends_of_free
    (free : ∀ turn ∈ turns, Costless corpus justValue turn) :
    (∃ groups, (turns.map Tree.Turn.result).mapM id = .ok groups) ∨
      directory.isSome = true ∧ ∃ fault,
        (turns.map Tree.Turn.result).mapM id = .error fault ∧ Tree.IsStoreFault fault := by
  cases done : (turns.map Tree.Turn.result).mapM id with
  | ok groups => exact .inl ⟨groups, rfl⟩
  | error fault =>
      obtain ⟨result, member, failed⟩ := Outcome.mapM_error done
      obtain ⟨turn, there, rfl⟩ := List.mem_map.mp member
      obtain ⟨writes, store⟩ := fault_of_turn (steps turn there) (free turn there) failed
      exact .inr ⟨writes, fault, rfl, store⟩

end

/-! ## Corpora of graphs -/

/-- The groups and the unparsed files share out the files that were found, and keep their order. -/
structure Arranged (format : Except Fault PathFormat) (found : List Path) (corpus : GraphCorpus) :
    Prop where
  ordered : found.Pairwise fun p q => p.le q = true
  distinct : (corpus.groups.map Prod.fst).Nodup
  grouped : ∀ group ∈ corpus.groups, group.2 ≠ [] ∧
    group.2 = found.filter fun path => binaryOf? format path == some group.1
  unparsed : corpus.unparsed = found.filter fun path => (binaryOf? format path).isNone
  shared : (corpus.groups.flatMap Prod.snd ++ corpus.unparsed).Perm found

theorem perm_groupsOf (format : Except Fault PathFormat) (files : List Path) :
    ((groupsOf format files).flatMap Prod.snd ++ unnamedOf format files).Perm files := by
  -- The files that name no binary are one more class of files.
  let keys := (binariesOf format files).map some ++ [none]
  have distinct : keys.Nodup := by
    rw [List.nodup_append]
    refine ⟨(nodup_binariesOf format files).map (Option.some_injective _), by simp, ?_⟩
    intro key named other last
    obtain ⟨binary, -, rfl⟩ := List.mem_map.mp named
    obtain rfl := List.mem_singleton.mp last
    exact Option.some_ne_none binary
  have covered : ∀ path ∈ files, binaryOf? format path ∈ keys := by
    intro path member
    cases named : binaryOf? format path with
    | none => simp [keys]
    | some binary =>
        have known := mem_binariesOf.mpr ⟨path, member, named⟩
        simp [keys, known]
  have shared := perm_flatMap_filter (binaryOf? format) distinct covered
  have unnamed : (files.filter fun path => binaryOf? format path == none) =
      unnamedOf format files := by
    apply List.filter_congr
    intro path _
    cases binaryOf? format path <;> rfl
  rw [List.flatMap_append, List.flatMap_singleton, unnamed, List.flatMap_map] at shared
  rw [groupsOf, List.flatMap_map]
  exact shared

theorem arranged_corpusOf (format : Except Fault PathFormat) {found : List Path}
    (ordered : found.Pairwise fun p q => p.le q = true) :
    Arranged format found (corpusOf format found) where
  ordered := ordered
  distinct := by
    have names : (groupsOf format found).map Prod.fst = binariesOf format found := by
      rw [groupsOf, List.map_map]
      exact List.map_id _
    exact names ▸ nodup_binariesOf format found
  grouped := by
    intro group member
    obtain ⟨binary, named, rfl⟩ := List.mem_map.mp member
    exact ⟨filesNaming_ne_nil named, rfl⟩
  unparsed := rfl
  shared := perm_groupsOf format found

/-! ## Both corpora -/

/-- In every run the groups of records share out the files of their corpus and account for what
these hold, and no group fails but for a file that costs it or for an output that cannot be written.
The graphs below a directory are shared out to groups and unparsed files. -/
theorem corpora_partition (corpus : RecordCorpus) (justValue : Bool) (directory : Option Path)
    {workers : Int} (pool : poolFault? workers corpus.binaries.length = none)
    (format : Except Fault PathFormat) (input : Path) (w : Workspace) :
    (∃ turns later,
      (corpus.dedup justValue directory workers).on w =
        ((turns.map Tree.Turn.result).mapM id, later) ∧
      Tree.Turns w.tree turns later.tree ∧ turns.map Tree.Turn.item = corpus.binaries ∧
      (directory = none → (∀ turn ∈ turns, turn.before = w.tree) ∧
        ∀ file ∈ corpus.files, heldIn turns file = textsIn? w.tree file.path) ∧
      (∀ groups, (turns.map Tree.Turn.result).mapM id = .ok groups →
        (∀ turn ∈ turns, Costless corpus justValue turn) ∧
          Accounted corpus justValue (heldIn turns) groups) ∧
      ((∀ turn ∈ turns, Costless corpus justValue turn) →
        (∃ groups, (turns.map Tree.Turn.result).mapM id = .ok groups) ∨
          directory.isSome = true ∧ ∃ fault,
            (turns.map Tree.Turn.result).mapM id = .error fault ∧ Tree.IsStoreFault fault)) ∧
    ∀ files, w.tree.filesBelow input true = .ok files →
      ∃ found later, (GraphCorpus.ofDirectory format input).on w = (.ok found, later) ∧
        later.tree = w.tree ∧ Arranged format (corpusFiles files) found := by
  constructor
  · have acts (binary : String) :=
      (gathering_dedupRecords justValue directory binary).acts (corpus.filesOf binary)
    obtain ⟨turns, later, ran, chain, items, steps⟩ := forkJoin_turns acts pool w
    refine ⟨turns, later, ran, chain, items, ?_, ?_, ends_of_free steps⟩
    · intro none
      have before := before_of_unwritten steps none chain
      refine ⟨fun turn member => (before turn member).symm, ?_⟩
      intro file member
      exact heldIn_of_unwritten items before member
    · intro groups done
      have free := costless_of_turns steps done
      rw [groups_of_turns items steps done]
      exact ⟨free, accounted_heldGroups corpus justValue directory _ (digested_heldIn items free)⟩
  · intro files listed
    obtain ⟨later, ran, same⟩ := on_ofDirectory format listed
    refine ⟨_, later, ran, same, ?_⟩
    exact arranged_corpusOf format ((Tree.ordered_filesBelow listed).filter _)

/-- A file that does not load, and one that is listed for two binaries. -/
def listedTwice : RecordCorpus where
  files := [⟨firstFile, "f", "a"⟩, ⟨secondFile, "f", "b"⟩, ⟨secondFile, "g", "b"⟩]

theorem textsIn?_binary : cost? (beside (.binary [255])) firstFile = none ∧
    textsIn? (beside (.binary [255])) firstFile = none := by
  have read : (beside (.binary [255])).readText firstFile = .error .notText := rfl
  constructor
  · unfold cost?
    rw [read]
    rfl
  · unfold textsIn? valueIn?
    rw [read]
    rfl

theorem corpora_partition_listedTwice :
    poolFault? 1 listedTwice.binaries.length = none ∧
      (beside (.binary [255])).filesBelow (Path.ofText "c") true = .ok [firstFile, secondFile] ∧
      (∃ groups later,
        (listedTwice.dedup true none 1).on ⟨beside (.binary [255]), []⟩ = (.ok groups, later) ∧
        groups.map RecordGroup.binary = ["f", "g"] ∧
        groups.flatMap RecordGroup.failed = [firstFile] ∧
        (groups.map fun group => group.statistics.total).sum = 4 ∧
        (groups.map fun group => group.kept.length).sum = 2) ∧
      ∃ found later, (GraphCorpus.ofDirectory (.ok .cisco) (Path.ofText "c")).on
          ⟨beside (.binary [255]), []⟩ = (.ok found, later) ∧
        Arranged (.ok .cisco) [firstFile, secondFile] found ∧ found.unparsed = [] := by
  have pool : poolFault? 1 listedTwice.binaries.length = none := by decide +kernel
  have listed : (beside (.binary [255])).filesBelow (Path.ofText "c") true =
      .ok [firstFile, secondFile] :=
    Tree.filesBelow_of_sorted ["c"] (by decide +kernel) (by decide +kernel) (by decide +kernel)
      (by decide +kernel)
  obtain ⟨⟨turns, later, ran, -, -, alone, done, ends⟩, graphs⟩ :=
    corpora_partition listedTwice true none pool (.ok .cisco) (Path.ofText "c")
      ⟨beside (.binary [255]), []⟩
  obtain ⟨before, held⟩ := alone rfl
  obtain ⟨costs, missed⟩ := textsIn?_binary
  refine ⟨pool, listed, ?_, ?_⟩
  · have free : ∀ turn ∈ turns, Costless listedTwice true turn := by
      intro turn there file member
      rw [before turn there]
      have among := List.mem_of_mem_filter member
      simp only [listedTwice, List.mem_cons, List.not_mem_nil, or_false] at among
      rcases among with rfl | rfl | rfl
      · simp [recordCost?, costs, missed]
      · exact recordCost?_secondFile _ rfl
      · exact recordCost?_secondFile _ rfl
    obtain ⟨groups, all⟩ := (ends free).resolve_right (by simp)
    obtain ⟨-, accounted⟩ := done groups all
    obtain ⟨records, unloaded⟩ := recordsOf_congr held
    refine ⟨groups, later, ran.trans (by rw [all]), ?_, ?_, ?_, ?_⟩
    · exact accounted.binaries.trans (by decide +kernel)
    · have failed := accounted.failed
      rw [unloaded] at failed
      simp only [unloadedOf, listedTwice, List.filter_cons, missed, textsIn?_secondFile] at failed
      exact List.perm_singleton.mp failed
    · rw [accounted.total, records]
      simp [recordsOf, listedTwice, missed, textsIn?_secondFile, RecordFile.recordsOf]
    · have first : heldIn turns ⟨firstFile, "f", "a"⟩ = none :=
        (held ⟨firstFile, "f", "a"⟩ (by simp [listedTwice])).trans missed
      have second (binary : String) (member : ⟨secondFile, binary, "b"⟩ ∈ listedTwice.files) :
          heldIn turns ⟨secondFile, binary, "b"⟩ =
            some ([("adjacency", ""), ("nodes", "")] : Texts) :=
        (held ⟨secondFile, binary, "b"⟩ member).trans (textsIn?_secondFile _)
      have digests : digestsOf (heldIn turns) true listedTwice.files =
          [("f", Record.digest true ⟨"adjacency", "", "b"⟩),
            ("f", Record.digest true ⟨"nodes", "", "b"⟩),
            ("g", Record.digest true ⟨"adjacency", "", "b"⟩),
            ("g", Record.digest true ⟨"nodes", "", "b"⟩)] := by
        simp only [digestsOf, recordsOf, listedTwice, List.flatMap_cons, List.flatMap_nil, first,
          second "f" (by simp [listedTwice]), second "g" (by simp [listedTwice])]
        rfl
      have same (name : String) : Record.digest true ⟨name, "", "b"⟩ =
          Record.digest true ⟨"", "", "b"⟩ := by
        simp only [Record.digest, recordDigest, digestBytes, ↓reduceIte]
      rw [accounted.kept, digests, same, same "nodes"]
      generalize Record.digest true ⟨"", "", "b"⟩ = digest
      simp
  · obtain ⟨found, later, collected, -, arranged⟩ := graphs _ listed
    have json : corpusFiles [firstFile, secondFile] = [firstFile, secondFile] := by decide +kernel
    rw [json] at arranged
    exact ⟨found, later, collected, arranged, arranged.unparsed.trans (by decide +kernel)⟩

/-! ## A record without a digest -/

def firstHalf : HalvedText := ⟨[Point.ofUnit 0xd800], rfl, rfl⟩

/-- The text of a file with a record whose text is half a surrogate pair. -/
def halvedRecord : String := "\x7b\"k\": \"\\ud800\"\x7d"

theorem decode_halvedRecord :
    decode halvedRecord = .ok (.obj [("k", .str (.halved firstHalf))]) := by
  have written : (Value.obj [("k", .str (.halved firstHalf))]).render = halvedRecord := by
    decide +kernel
  rw [← written]
  refine decode_of_readable ?_
  simp [Value.Readable, FieldsReadable, openLimit]

theorem reading_halvedRecord :
    cost? (beside (.text halvedRecord)) firstFile = none ∧
      textsIn? (beside (.text halvedRecord)) firstFile =
        some ([("k", .halved firstHalf)] : Texts) := by
  have holds : (beside (.text halvedRecord)).Holds firstFile halvedRecord := ⟨rfl, rfl⟩
  have plain : '\r' ∉ halvedRecord.toList := by decide
  unfold cost? textsIn? valueIn?
  rw [holds.readText_plain plain]
  dsimp only
  rw [decode_halvedRecord]
  exact ⟨rfl, rfl⟩

/-- Both files load, and no binary comes out of the batch, neither the one with the record that has
no digest nor the other one. -/
theorem corpora_lost_halvedText :
    textsIn? (beside (.text halvedRecord)) firstFile =
        some ([("k", .halved firstHalf)] : Texts) ∧
      textsIn? (beside (.text halvedRecord)) secondFile =
        some ([("adjacency", ""), ("nodes", "")] : Texts) ∧
      listedTwice.binaries = ["f", "g"] ∧
      ((listedTwice.dedup true none 1).on ⟨beside (.text halvedRecord), []⟩).1 =
        .error (.notEncodable 0 [.first 0]) := by
  obtain ⟨free, loaded⟩ := reading_halvedRecord
  have binaries : listedTwice.binaries = ["f", "g"] := by decide +kernel
  have files : listedTwice.filesOf "f" = [⟨firstFile, "f", "a"⟩, ⟨secondFile, "f", "b"⟩] := by
    decide +kernel
  have costs : recordCost? true (beside (.text halvedRecord)) ⟨firstFile, "f", "a"⟩ =
      some (.notEncodable 0 [.first 0]) := by
    simp only [recordCost?, free, loaded]
    rfl
  refine ⟨loaded, textsIn?_secondFile _, binaries, ?_⟩
  have pool : poolFault? 1 listedTwice.binaries.length = none := by decide +kernel
  obtain ⟨turns, later, ran, chain, items, each⟩ :=
    listedTwice.takesTurns true none pool ⟨beside (.text halvedRecord), []⟩
  rw [binaries] at items
  obtain ⟨first, rest, rfl, item, -⟩ := List.map_eq_cons_iff.mp items
  have turn := each first List.mem_cons_self
  have before : first.before = beside (.text halvedRecord) := by
    cases chain
    rfl
  rw [item] at turn
  have lost := turn.lost (.notEncodable 0 [.first 0])
  rw [files, before] at lost
  obtain ⟨result, -⟩ := lost (by rw [List.findSome?_cons_of_isSome (by rw [costs]; rfl), costs])
  rw [ran, List.map_cons, List.mapM_cons, result]
  rfl

end FlowCorpus.Dedup
