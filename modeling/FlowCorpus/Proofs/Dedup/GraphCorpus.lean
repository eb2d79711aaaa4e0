import Mathlib
import FlowCorpus.Proofs.Dedup.Survivors
import FlowCorpus.Proofs.Storage.Listing

/-!
# Corpora of graphs on disk

Every graph that is kept goes below the output directory under the name of its directory and its
own. Files are collected at any depth: two of them may have both names in common, and then the file
that is written first is lost. Where no two survivors have both names in common, every one of them
is found again in its own file.
-/

set_option autoImplicit false

namespace FlowCorpus.Storage

def Path.lastNames (path : Path) : String × String :=
  (path.parent.name, path.name)

structure Tree.Apart (tree : Tree) (p q : Path) : Prop where
  notBelow : ¬ tree.destination p <+: tree.destination q
  notAbove : ¬ tree.destination q <+: tree.destination p

end FlowCorpus.Storage

namespace FlowCorpus.Dedup

open FlowCorpus.Batch FlowCorpus.Json FlowCorpus.Storage

/-! ## Where survivors go -/

/-- A file that has a name and stands in a directory that has one. -/
structure Placed (path : Path) : Prop where
  parent : IsName path.parent.name
  name : IsName path.name

theorem Placed.keptPath_eq {path : Path} (placed : Placed path) (directory : Path) :
    keptPath directory path =
      { directory with names := directory.names ++ [path.parent.name, path.name] } := by
  unfold keptPath
  rw [placed.parent.below, placed.name.below, List.append_assoc]
  rfl

theorem Placed.destination {path : Path} (placed : Placed path) (tree : Tree) (directory : Path) :
    tree.destination (keptPath directory path) =
      tree.destination directory ++ [path.parent.name, path.name] := by
  have down : ∀ name ∈ [path.parent.name, path.name], name ≠ ".." := by
    simp [placed.parent.noDoubleDot, placed.name.noDoubleDot]
  rw [placed.keptPath_eq]
  exact (Tree.descend_append _ _ _).trans (Tree.descend_of_forall_ne down _)

/-- A directory that names a binary has a name. -/
theorem isName_of_binaryName {format : Except Fault PathFormat} {path : Path} {binary : String}
    (named : binaryName format path = .ok binary) (noSlash : '/' ∉ path.parent.name.toList) :
    IsName path.parent.name := by
  obtain ⟨format, -, found⟩ := Outcome.bind_ok named
  have two : ∀ name ∈ ["", ".", ".."], format.binary? (tokensOf name) = none := by
    cases format <;> decide
  have other : path.parent.name ∉ ["", ".", ".."] := by
    intro member
    simp only [two _ member] at found
    cases found
  simp only [List.mem_cons, List.not_mem_nil, or_false, not_or] at other
  exact ⟨other.1, other.2.1, other.2.2, noSlash⟩

theorem placed_of_listed {tree : Tree} {s : String} {path : Path} {names : List String}
    (listed : tree.Listed (Path.ofText s) path names) (proper : tree.IsProper)
    {format : Except Fault PathFormat} {binary : String}
    (named : binaryName format path = .ok binary) : Placed path := by
  obtain ⟨before, last, rfl⟩ := names.eq_nil_or_concat'.resolve_left listed.nonempty
  have name : path.name = last := by
    rw [listed.shape]
    simp [Path.name]
  have parent : path.parent.names = (Path.ofText s).names ++ before := by
    rw [listed.shape]
    simp [Path.parent, ← List.append_assoc]
  refine ⟨isName_of_binaryName named ?_, ?_⟩
  · have noSlash : ∀ name ∈ path.parent.names, '/' ∉ name.toList := by
      intro name member
      rw [parent] at member
      rcases List.mem_append.mp member with above | inside
      · exact noSlash_of_mem_names above
      · exact (listed.isName proper (List.mem_append_left _ inside)).noSlash
    unfold Path.name
    rcases path.parent.names.eq_nil_or_concat' with empty | ⟨_, directory, shape⟩
    · simp [empty]
    · rw [shape] at noSlash ⊢
      simpa using noSlash directory (by simp)
  · rw [name]
    exact listed.isName proper (by simp)

/-! ## The files of a corpus -/

theorem mem_addTo {binary : String} {path : Path} {groups : List (String × List Path)}
    {group : String × List Path} {p : Path} (member : group ∈ GraphCorpus.addTo binary path groups)
    (inside : p ∈ group.2) : p = path ∨ ∃ group ∈ groups, p ∈ group.2 := by
  induction groups with
  | nil =>
      obtain rfl := List.mem_singleton.mp member
      exact .inl (List.mem_singleton.mp inside)
  | cons first rest ih =>
      obtain ⟨b, paths⟩ := first
      unfold GraphCorpus.addTo at member
      split at member
      · rcases List.mem_cons.mp member with rfl | later
        · rcases List.mem_append.mp inside with there | new
          · exact .inr ⟨_, List.mem_cons_self, there⟩
          · exact .inl (List.mem_singleton.mp new)
        · exact .inr ⟨_, List.mem_cons_of_mem _ later, inside⟩
      · rcases List.mem_cons.mp member with rfl | later
        · exact .inr ⟨_, List.mem_cons_self, inside⟩
        · exact (ih later).imp_right fun ⟨group, there, found⟩ =>
            ⟨group, List.mem_cons_of_mem _ there, found⟩

/-- The files in the groups of a corpus are among some files, and their directories name
binaries. -/
def GraphCorpus.Within (format : Except Fault PathFormat) (files : List Path)
    (corpus : GraphCorpus) : Prop :=
  ∀ group ∈ corpus.groups, ∀ path ∈ group.2,
    path ∈ files ∧ ∃ binary, binaryName format path = .ok binary

theorem add_ok {format : Except Fault PathFormat} {files : List Path} {corpus next : GraphCorpus}
    {path : Path} {w later : Workspace} (within : corpus.Within format files)
    (member : path ∈ files) (success : (corpus.add format path).on w = (.ok next, later)) :
    next.Within format files ∧ later.tree = w.tree := by
  unfold GraphCorpus.add at success
  split at success
  · rename_i binary named
    cases success
    refine ⟨fun group there p inside => ?_, rfl⟩
    rcases mem_addTo there inside with rfl | ⟨group, before, found⟩
    · exact ⟨member, binary, named⟩
    · exact within group before p found
  · obtain ⟨_, _, reported, built⟩ := Job.on_bind_ok success
    cases reported
    cases built
    exact ⟨within, rfl⟩

theorem ofDirectory_ok {format : Except Fault PathFormat} {directory : Path}
    {corpus : GraphCorpus} {w later : Workspace}
    (success : (GraphCorpus.ofDirectory format directory).on w = (.ok corpus, later)) :
    later.tree = w.tree ∧
      ∃ files, w.tree.filesBelow directory true = .ok files ∧ corpus.Within format files := by
  obtain ⟨files, middle, asked, further⟩ := Job.on_bind_ok success
  rw [Job.on_ask] at asked
  obtain ⟨found, rfl⟩ := Prod.mk.inj asked
  have result := Job.foldlM_ok
    (fun corpus reached => GraphCorpus.Within format files corpus ∧ reached.tree = w.tree)
    (fun path member state start next reached ⟨within, same⟩ step =>
      (add_ok within (List.mem_of_mem_filter member) step).imp_right (·.trans same))
    ⟨fun _ member => absurd member List.not_mem_nil, rfl⟩ further
  exact ⟨result.2, files, found, result.1⟩

/-! ## All groups -/

/-- A file whose graph is the same in every tree that changes below a directory only. -/
structure Safe (tree : Tree) (directory path : Path) : Prop where
  placed : Placed path
  steady : ∀ later, Tree.Grows (tree.destination directory <+: ·) tree later →
    later.readText path = tree.readText path

theorem safe_of_within {tree : Tree} {input : String} {output : Path} {corpus : GraphCorpus}
    {format : Except Fault PathFormat} {files : List Path} (proper : tree.IsProper)
    (apart : tree.Apart (Path.ofText input) output)
    (listed : tree.filesBelow (Path.ofText input) true = .ok files)
    (within : corpus.Within format files) :
    ∀ group ∈ corpus.groups, ∀ path ∈ group.2, Safe tree output path := by
  intro group member path inside
  obtain ⟨found, binary, named⟩ := within group member path inside
  obtain ⟨names, there⟩ := Tree.listed_of_mem_filesBelow listed found
  refine ⟨placed_of_listed there proper named, fun later grows => ?_⟩
  refine there.readText proper grows fun below => ?_
  -- The input and the output directory are both above the file, so that one is above the other.
  rw [there.destination proper] at below
  rcases List.prefix_or_prefix_of_prefix below (List.prefix_append _ names) with above | under
  · exact apart.notAbove above
  · exact apart.notBelow under

variable {output : Path}

/-- The files of survivors are below the output directory. -/
theorem grows_below {tree later : Tree} {survivors : List (Value × Path)} {written : List Path}
    (ran : Ran (writeSurvivor output) tree survivors written later)
    (placed : ∀ survivor ∈ survivors, Placed survivor.2) :
    Tree.Grows (tree.destination output <+: ·) tree later := by
  refine (grows_of_ran ran).mono fun location member => ?_
  obtain ⟨survivor, there, rfl⟩ := List.mem_map.mp member
  unfold target
  rw [(placed survivor there).destination]
  exact List.prefix_append _ _

/-- What a batch of groups leaves: the survivors of all groups, one after the other, with the graphs
that their files held before. -/
structure Survived (first tree : Tree) (output : Path) (groups : List GraphGroup)
    (survivors : List (Value × Path)) (later : Tree) : Prop where
  paths : survivors.map Prod.snd = groups.flatMap GraphGroup.kept
  loads : ∀ survivor ∈ survivors, Loads first survivor.1 survivor.2
  placed : ∀ survivor ∈ survivors, Placed survivor.2
  counted : ∀ group ∈ groups, group.statistics.unique = group.kept.length
  written : ∀ group ∈ groups, group.written = group.kept.map (keptPath output)
  ran : Ran (writeSurvivor output) tree survivors (groups.flatMap GraphGroup.written) later

theorem survived_of_ran {first tree later : Tree} {items : List (String × List Path)}
    {groups : List GraphGroup}
    (ran : Ran (fun (binary, paths) => dedupGraphs (some output) binary paths) tree items groups
      later)
    (grown : Tree.Grows (first.destination output <+: ·) first tree)
    (safe : ∀ item ∈ items, ∀ path ∈ item.2, Safe first output path) :
    ∃ survivors, Survived first tree output groups survivors later := by
  induction ran with
  | nil =>
      exact ⟨[], rfl, nofun, nofun, nofun, nofun, .nil⟩
  | @cons w middle item group items groups later start others ih =>
      rw [List.forall_mem_cons] at safe
      obtain ⟨graphs, loads, kept, counted, ran⟩ := dedupGraphs_ok start
      have paths : (graphs.zip group.kept).map Prod.snd = group.kept :=
        List.map_snd_zip (by rw [loads.length_eq])
      have inside : ∀ survivor ∈ graphs.zip group.kept, Safe first output survivor.2 :=
        fun survivor member => safe.1 _ (kept (List.of_mem_zip member).2)
      have earlier : ∀ survivor ∈ graphs.zip group.kept, Loads first survivor.1 survivor.2 := by
        rintro ⟨graph, path⟩ member
        obtain ⟨fields, rfl, loaded⟩ := (List.forall₂_iff_zip.mp loads).2 member
        exact ⟨fields, rfl, (loadGraph_congr ((inside _ member).steady _ grown)) ▸ loaded⟩
      have below := grows_below ran fun survivor member => (inside survivor member).placed
      rw [grown.destination] at below
      obtain ⟨survivors, rest⟩ := ih (grown.trans below) safe.2
      refine ⟨graphs.zip group.kept ++ survivors, ?_, ?_, ?_, ?_, ?_, ran.append rest.ran⟩
      · rw [List.map_append, paths, rest.paths, List.flatMap_cons]
      · exact List.forall_mem_append.mpr ⟨earlier, rest.loads⟩
      · exact List.forall_mem_append.mpr
          ⟨fun survivor member => (inside survivor member).placed, rest.placed⟩
      · exact List.forall_mem_cons.mpr ⟨counted, rest.counted⟩
      · have files : group.written = group.kept.map (keptPath output) := by
          rw [written_of_ran ran, ← Function.comp_def, ← List.map_map, paths]
        exact List.forall_mem_cons.mpr ⟨files, rest.written⟩

/-- The path of a kept file with the given names of its directory and its own. -/
def pathOf (output : Path) (names : String × String) : Path :=
  { output with names := output.names ++ [names.1, names.2] }

theorem pathOf_injective (output : Path) : Function.Injective (pathOf output) := by
  rintro ⟨a, b⟩ ⟨c, d⟩ same
  simpa [pathOf] using same

namespace Survived

variable {tree later : Tree} {groups : List GraphGroup} {survivors : List (Value × Path)}

theorem placed_kept (survived : Survived tree tree output groups survivors later) :
    ∀ path ∈ groups.flatMap GraphGroup.kept, Placed path := by
  intro path member
  rw [← survived.paths] at member
  obtain ⟨survivor, there, rfl⟩ := List.mem_map.mp member
  exact survived.placed survivor there

theorem written_eq (survived : Survived tree tree output groups survivors later) :
    groups.flatMap GraphGroup.written =
      ((groups.flatMap GraphGroup.kept).map Path.lastNames).map (pathOf output) := by
  have written : groups.flatMap GraphGroup.written =
      groups.flatMap fun group => group.kept.map (keptPath output) := by
    rw [List.flatMap_def, List.flatMap_def, List.map_congr_left survived.written]
  rw [written, ← List.map_flatMap, List.map_map]
  exact List.map_congr_left fun path member => (survived.placed_kept path member).keptPath_eq output

theorem unique_eq (survived : Survived tree tree output groups survivors later) :
    (groups.map fun group => group.statistics.unique).sum =
      (groups.flatMap GraphGroup.kept).length := by
  rw [List.map_congr_left survived.counted, List.length_flatMap, Nat.cast_list_sum, List.map_map]
  rfl

/-- As many files are written as there are survivors just when no two survivors have both last
names in common. -/
theorem files_iff (survived : Survived tree tree output groups survivors later) :
    ((groups.flatMap GraphGroup.written).toFinset.card : Int) =
        (groups.map fun group => group.statistics.unique).sum ↔
      ((groups.flatMap GraphGroup.kept).map Path.lastNames).Nodup := by
  have length : (groups.flatMap GraphGroup.written).length =
      (groups.flatMap GraphGroup.kept).length := by
    rw [survived.written_eq, List.length_map, List.length_map]
  rw [survived.unique_eq, ← length, Nat.cast_inj, ← List.nodup_map_iff (pathOf_injective output),
    ← survived.written_eq]
  exact Multiset.toFinset_card_eq_card_iff_nodup

/-- A survivor is found again in its file unless a later one has both last names in common. -/
theorem loadGraph_last (survived : Survived tree tree output groups survivors later)
    {before after : List Path} {path : Path}
    (kept : groups.flatMap GraphGroup.kept = before ++ path :: after)
    (last : path.lastNames ∉ after.map Path.lastNames) :
    ∃ fields, loadGraph tree path = .ok fields ∧
      loadGraph later (keptPath output path) = .ok fields := by
  have paths := survived.paths
  rw [kept, List.map_eq_append_iff] at paths
  obtain ⟨earlier, rest, rfl, -, paths⟩ := paths
  rw [List.map_eq_cons_iff] at paths
  obtain ⟨survivor, others, rfl, rfl, rfl⟩ := paths
  obtain ⟨fields, graph, loaded⟩ := survived.loads survivor (by simp)
  have elsewhere : target tree output survivor ∉ others.map (target tree output) := by
    intro member
    obtain ⟨other, there, same⟩ := List.mem_map.mp member
    unfold target at same
    rw [(survived.placed other (by simp [there])).destination,
      (survived.placed survivor (by simp)).destination, List.append_cancel_left_eq] at same
    refine last (List.mem_map.mpr ⟨other.2, List.mem_map_of_mem there, ?_⟩)
    simpa [ Path.lastNames] using same
  have holds := holds_of_ran survived.ran elsewhere
  rw [graph] at holds
  exact ⟨fields, loaded, loadGraph_of_holds loaded holds⟩

end Survived

def dedupDirectory (format : Except Fault PathFormat) (input output : Path) (workers : Int) :
    Job (List GraphGroup) := do
  let corpus ← GraphCorpus.ofDirectory format input
  corpus.dedup (some output) workers

theorem survived_of_dedup {format : Except Fault PathFormat} {input : String} {workers : Int}
    {w later : Workspace} {groups : List GraphGroup} (proper : w.tree.IsProper)
    (apart : w.tree.Apart (Path.ofText input) output)
    (done : (dedupDirectory format (Path.ofText input) output workers).on w = (.ok groups, later)) :
    ∃ survivors, Survived w.tree w.tree output groups survivors later.tree := by
  obtain ⟨corpus, middle, found, deduplicated⟩ := Job.on_bind_ok done
  obtain ⟨same, files, listed, within⟩ := ofDirectory_ok found
  have ran := ran_of_forkJoin deduplicated
  rw [same] at ran
  exact survived_of_ran ran (.refl _ _) (safe_of_within proper apart listed within)

/-! ## Two files -/

def emptyGraph : Fields := [("adjacency", .arr []), ("nodes", .arr [])]

def singleNode : Fields :=
  [("adjacency", .arr [.arr []]), ("nodes", .arr [.obj [("id", .int 0)]])]

def holding (fields : Fields) : Entry :=
  .file (.text (Value.obj fields).render)

theorem decode_emptyGraph : decode (Value.obj emptyGraph).render = .ok (.obj emptyGraph) := by
  refine decode_of_readable ?_
  simp [emptyGraph, Value.Readable, ItemsReadable, FieldsReadable, openLimit]

theorem decode_singleNode : decode (Value.obj singleNode).render = .ok (.obj singleNode) := by
  refine decode_of_readable ?_
  simp [singleNode, Value.Readable, ItemsReadable, FieldsReadable, openLimit]
  decide

theorem digests_differ : graphDigest (.obj emptyGraph) ≠ graphDigest (.obj singleNode) := by
  have empty : (Value.obj emptyGraph).canonical = "\x7b\"adjacency\":[],\"nodes\":[]\x7d" := by
    simp only [Value.canonical, Value.sorted, emptyGraph, sortedFields, sortedItems]
    rw [List.mergeSort_of_pairwise (by decide +kernel)]
    decide +kernel
  have single : (Value.obj singleNode).canonical =
      "\x7b\"adjacency\":[[]],\"nodes\":[\x7b\"id\":0\x7d]\x7d" := by
    simp only [Value.canonical, Value.sorted, singleNode, sortedFields, sortedItems]
    rw [List.mergeSort_of_pairwise (by decide +kernel), List.mergeSort_of_pairwise (by simp)]
    decide +kernel
  unfold graphDigest
  rw [empty, single]
  decide +kernel

def pairGroup (p q : Path) (written : List Path) : GraphGroup where
  binary := "ls"
  kept := [p, q]
  statistics := ⟨2, 2⟩
  written

theorem on_dedupGraphs_pair {tree : Tree} {p q : Path} {written : List Path}
    (first : loadGraph tree p = .ok emptyGraph) (second : loadGraph tree q = .ok singleNode)
    (writes : (([(Value.obj emptyGraph, p), (Value.obj singleNode, q)].mapM
      (writeSurvivor output)).on ⟨tree, []⟩).1 = .ok written) :
    ∃ later, (dedupGraphs (some output) "ls" [p, q]).on ⟨tree, []⟩ =
      (.ok (pairGroup p q written), later) := by
  have loaded : ([p, q].foldlM loadNext {}).on ⟨tree, []⟩ =
      (.ok { graphs := [.obj emptyGraph, .obj singleNode], paths := [p, q] }, ⟨tree, []⟩) := by
    rw [List.foldlM_cons, Job.on_bind_of_ok (on_loadNext first), List.foldlM_cons,
      Job.on_bind_of_ok (on_loadNext second)]
    rfl
  have kept : LoadedGraphs.dedup { graphs := [.obj emptyGraph, .obj singleNode], paths := [p, q] } =
      { graphs := [.obj emptyGraph, .obj singleNode], paths := [p, q] } := by
    simp [LoadedGraphs.dedup, repeats, repeatsFrom, digests_differ.symm, withoutPlaces]
  unfold dedupGraphs
  rw [Job.on_bind_of_ok loaded, kept]
  refine ⟨_, (Job.on_bind_of_ok (Prod.ext writes rfl) _).trans rfl⟩

theorem on_dedup_pair {tree : Tree} {input : String} {p q : Path} {written : List Path}
    (listed : tree.filesBelow (Path.ofText input) true = .ok [p, q])
    (json : p.name.endsWith GraphCorpus.ending = true ∧ q.name.endsWith GraphCorpus.ending = true)
    (named : binaryName (.ok .cisco) p = .ok "ls" ∧ binaryName (.ok .cisco) q = .ok "ls")
    (first : loadGraph tree p = .ok emptyGraph) (second : loadGraph tree q = .ok singleNode)
    (writes : (([(Value.obj emptyGraph, p), (Value.obj singleNode, q)].mapM
      (writeSurvivor output)).on ⟨tree, []⟩).1 = .ok written) :
    ∃ later, (dedupDirectory (.ok .cisco) (Path.ofText input) output 1).on ⟨tree, []⟩ =
      (.ok [pairGroup p q written], later) := by
  obtain ⟨later, done⟩ := on_dedupGraphs_pair first second writes
  have corpus : (GraphCorpus.ofDirectory (.ok .cisco) (Path.ofText input)).on ⟨tree, []⟩ =
      (.ok { groups := [("ls", [p, q])] }, ⟨tree, []⟩) := by
    unfold GraphCorpus.ofDirectory
    rw [Job.on_bind_of_ok ((Job.on_ask _ _).trans (by rw [listed]))]
    simp only [List.filter_cons, json.1, json.2, ↓reduceIte, List.filter_nil, List.foldlM_cons,
      List.foldlM_nil, GraphCorpus.add, named.1, named.2]
    rfl
  refine ⟨later, ?_⟩
  unfold dedupDirectory
  rw [Job.on_bind_of_ok corpus]
  exact on_forkJoin_single done

/-! ## Survivors on disk -/

/-- What deduplication promises about the trees before and after it: the file of every survivor
holds the graph of the file that was kept, and there are as many files as survivors. -/
structure Preserved (before after : Tree) (groups : List GraphGroup) : Prop where
  graphs : ∀ group ∈ groups, List.Forall₂ (fun kept written =>
    ∃ fields, loadGraph before kept = .ok fields ∧ loadGraph after written = .ok fields)
    group.kept group.written
  files : ((groups.flatMap GraphGroup.written).toFinset.card : Int) =
    (groups.map fun group => group.statistics.unique).sum

/-- Deduplication into a directory apart from the input loses no survivor just when no two survivors
have both the name of their directory and their own in common. -/
theorem preserved_iff {format : Except Fault PathFormat} {input : String} {workers : Int}
    {w later : Workspace} {groups : List GraphGroup} (proper : w.tree.IsProper)
    (apart : w.tree.Apart (Path.ofText input) output)
    (done : (dedupDirectory format (Path.ofText input) output workers).on w = (.ok groups, later)) :
    Preserved w.tree later.tree groups ↔
      ((groups.flatMap GraphGroup.kept).map Path.lastNames).Nodup := by
  obtain ⟨survivors, survived⟩ := survived_of_dedup proper apart done
  refine ⟨fun preserved => survived.files_iff.mp preserved.files, fun distinct => ?_⟩
  refine ⟨fun group member => ?_, survived.files_iff.mpr distinct⟩
  rw [survived.written group member, List.forall₂_map_right_iff, List.forall₂_same]
  intro path kept
  obtain ⟨before, after, shape⟩ := List.append_of_mem (List.mem_flatMap_of_mem member kept)
  rw [shape, List.map_append, List.map_cons, List.nodup_append] at distinct
  exact survived.loadGraph_last shape (List.nodup_cons.mp distinct.2.1).1

def otherNames : Tree where
  entries := [(["g"], .directory), (["g", "arm_ls_gcc"], .directory),
    (["g", "arm_ls_gcc", "f.json"], holding emptyGraph), (["g", "x86_ls_gcc"], .directory),
    (["g", "x86_ls_gcc", "f.json"], holding singleNode)]

def otherGroup : GraphGroup :=
  pairGroup (Path.ofText "g/arm_ls_gcc/f.json") (Path.ofText "g/x86_ls_gcc/f.json")
    [Path.ofText "o/arm_ls_gcc/f.json", Path.ofText "o/x86_ls_gcc/f.json"]

theorem preserved_otherNames :
    otherNames.IsProper ∧ otherNames.Apart (Path.ofText "g") (Path.ofText "o") ∧
      ∃ later, (dedupDirectory (.ok .cisco) (Path.ofText "g") (Path.ofText "o") 1).on
          ⟨otherNames, []⟩ = (.ok [otherGroup], later) ∧
        Preserved otherNames later.tree [otherGroup] := by
  have proper : otherNames.IsProper :=
    Tree.isProper_of_entries rfl (by decide +kernel) (by decide +kernel)
  have apart : otherNames.Apart (Path.ofText "g") (Path.ofText "o") :=
    ⟨by decide +kernel, by decide +kernel⟩
  have listed : otherNames.filesBelow (Path.ofText "g") true = .ok otherGroup.kept :=
    Tree.filesBelow_of_sorted ["g"] (by decide +kernel) (by decide +kernel) (by decide +kernel)
      (by decide +kernel)
  have first : loadGraph otherNames (Path.ofText "g/arm_ls_gcc/f.json") = .ok emptyGraph :=
    loadGraph_ok_iff.mpr ⟨_, by decide +kernel, decode_emptyGraph, rfl⟩
  have second : loadGraph otherNames (Path.ofText "g/x86_ls_gcc/f.json") = .ok singleNode :=
    loadGraph_ok_iff.mpr ⟨_, by decide +kernel, decode_singleNode, rfl⟩
  have writes : (([(Value.obj emptyGraph, Path.ofText "g/arm_ls_gcc/f.json"),
      (Value.obj singleNode, Path.ofText "g/x86_ls_gcc/f.json")].mapM
      (writeSurvivor (Path.ofText "o"))).on ⟨otherNames, []⟩).1 = .ok otherGroup.written := by
    decide +kernel
  obtain ⟨later, done⟩ := on_dedup_pair listed (by decide +kernel) (by decide +kernel) first second
    writes
  exact ⟨proper, apart, later, done, (preserved_iff proper apart done).mpr (by decide +kernel)⟩

/-- Two files with one name of their own in two directories with one name. -/
def sameNames : Tree where
  entries := [(["g"], .directory), (["g", "a"], .directory), (["g", "a", "x86_ls_gcc"], .directory),
    (["g", "a", "x86_ls_gcc", "f.json"], holding emptyGraph), (["g", "b"], .directory),
    (["g", "b", "x86_ls_gcc"], .directory),
    (["g", "b", "x86_ls_gcc", "f.json"], holding singleNode)]

def sameGroup : GraphGroup :=
  pairGroup (Path.ofText "g/a/x86_ls_gcc/f.json") (Path.ofText "g/b/x86_ls_gcc/f.json")
    [Path.ofText "o/x86_ls_gcc/f.json", Path.ofText "o/x86_ls_gcc/f.json"]

/-- Both graphs are counted as kept, but the file of the first one holds the second one. -/
theorem lost_sameNames :
    sameNames.IsProper ∧ sameNames.Apart (Path.ofText "g") (Path.ofText "o") ∧
      ∃ later, (dedupDirectory (.ok .cisco) (Path.ofText "g") (Path.ofText "o") 1).on
          ⟨sameNames, []⟩ = (.ok [sameGroup], later) ∧
        loadGraph sameNames (Path.ofText "g/a/x86_ls_gcc/f.json") = .ok emptyGraph ∧
        loadGraph later.tree (Path.ofText "o/x86_ls_gcc/f.json") = .ok singleNode ∧
        ¬ Preserved sameNames later.tree [sameGroup] := by
  have proper : sameNames.IsProper :=
    Tree.isProper_of_entries rfl (by decide +kernel) (by decide +kernel)
  have apart : sameNames.Apart (Path.ofText "g") (Path.ofText "o") :=
    ⟨by decide +kernel, by decide +kernel⟩
  have listed : sameNames.filesBelow (Path.ofText "g") true = .ok sameGroup.kept :=
    Tree.filesBelow_of_sorted ["g"] (by decide +kernel) (by decide +kernel) (by decide +kernel)
      (by decide +kernel)
  have first : loadGraph sameNames (Path.ofText "g/a/x86_ls_gcc/f.json") = .ok emptyGraph :=
    loadGraph_ok_iff.mpr ⟨_, by decide +kernel, decode_emptyGraph, rfl⟩
  have second : loadGraph sameNames (Path.ofText "g/b/x86_ls_gcc/f.json") = .ok singleNode :=
    loadGraph_ok_iff.mpr ⟨_, by decide +kernel, decode_singleNode, rfl⟩
  have writes : (([(Value.obj emptyGraph, Path.ofText "g/a/x86_ls_gcc/f.json"),
      (Value.obj singleNode, Path.ofText "g/b/x86_ls_gcc/f.json")].mapM
      (writeSurvivor (Path.ofText "o"))).on ⟨sameNames, []⟩).1 = .ok sameGroup.written := by
    decide +kernel
  obtain ⟨later, done⟩ := on_dedup_pair listed (by decide +kernel) (by decide +kernel) first second
    writes
  obtain ⟨survivors, survived⟩ := survived_of_dedup proper apart done
  have shape : [sameGroup].flatMap GraphGroup.kept =
      [Path.ofText "g/a/x86_ls_gcc/f.json"] ++ [Path.ofText "g/b/x86_ls_gcc/f.json"] := rfl
  obtain ⟨fields, loaded, found⟩ := survived.loadGraph_last shape List.not_mem_nil
  rw [second] at loaded
  cases loaded
  have place : keptPath (Path.ofText "o") (Path.ofText "g/b/x86_ls_gcc/f.json") =
      Path.ofText "o/x86_ls_gcc/f.json" := by decide +kernel
  rw [place] at found
  exact ⟨proper, apart, later, done, first, found,
    fun preserved => absurd preserved.files (by decide +kernel)⟩

end FlowCorpus.Dedup
