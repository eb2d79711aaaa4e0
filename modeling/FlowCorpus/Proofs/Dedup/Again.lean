import FlowCorpus.Proofs.Dedup.GraphCorpus
import FlowCorpus.Proofs.Dedup.Grouping
import FlowCorpus.Proofs.Dedup.LeftOut
import FlowCorpus.Proofs.Storage.Fresh

/-!
# Deduplication once more

What deduplication leaves in a fresh directory is a corpus of its own: it has the same groups, and
in none of them two graphs are the same. To deduplicate it removes nothing, and writes the same
files.
-/

set_option autoImplicit false

namespace FlowCorpus.Dedup

open FlowCorpus.Batch FlowCorpus.Json FlowCorpus.Storage

variable {format : Except Fault PathFormat} {output : Path}

/-! ## The groups of a run -/

theorem Loadable.read {tree : Tree} {path : Path} (loadable : Loadable tree path) :
    ∃ s, tree.readText path = .ok s := by
  obtain ⟨fields, loaded⟩ := loadable
  obtain ⟨s, read, -⟩ := loadGraph_ok_iff.mp loaded
  exact ⟨s, read⟩

theorem Loadable.located {tree : Tree} {path : Path} (loadable : Loadable tree path) :
    tree.locate path = .ok (tree.destination path) ∧
      ∃ content, tree.entry? (tree.destination path) = some (.file content) := by
  obtain ⟨s, read⟩ := loadable.read
  obtain ⟨location, located, there⟩ := Outcome.bind_ok read
  obtain rfl := Tree.locate_ok located
  split at there <;> cases there
  exact ⟨located, _, ‹_›⟩

/-- A file with a graph is not touched by what is put into a fresh directory. -/
theorem steady_of_fresh {tree : Tree} {path : Path} (fresh : tree.Fresh output)
    (loadable : Loadable tree path) (later : Tree)
    (grows : Tree.Grows (tree.destination output <+: ·) tree later) :
    later.readText path = tree.readText path := by
  obtain ⟨-, content, file⟩ := loadable.located
  obtain ⟨s, read⟩ := loadable.read
  rw [read]
  exact grows.readText (fresh.apart file) read

/-- A listed file with a graph is not touched by what is put into a fresh directory. -/
theorem safe_of_fresh {tree : Tree} {input : String} {files : List Path} {path : Path}
    {binary : String} (proper : tree.IsProper) (fresh : tree.Fresh output)
    (listed : tree.filesBelow (Path.ofText input) true = .ok files) (member : path ∈ files)
    (named : binaryOf? format path = some binary) (loadable : Loadable tree path) :
    Safe tree output path := by
  obtain ⟨names, there⟩ := Tree.listed_of_mem_filesBelow listed member
  have named : binaryName format path = .ok binary := by
    unfold binaryOf? at named
    cases found : binaryName format path with
    | ok other =>
        rw [found] at named
        cases named
        rfl
    | error fault =>
        rw [found] at named
        cases named
  exact ⟨placed_of_listed there proper named, steady_of_fresh fresh loadable⟩

def groupInto (tree : Tree) (output : Path) (item : String × List Path) : GraphGroup :=
  loadedGroup tree item.1 item.2 ((keptFiles tree item.2).map (keptPath output))

theorem firsts_congr {α : Type} {key other : α → String} {items : List α}
    (agree : ∀ a ∈ items, key a = other a) : firsts key items = firsts other items := by
  rw [firsts_eq_unrepeated, firsts_eq_unrepeated]
  exact unrepeated_congr fun a first b second => by rw [agree a first, agree b second]

section

variable {first tree later : Tree} {paths : List Path}

theorem loadGraph_of_safe {path : Path} (safe : Safe first output path)
    (grown : Tree.Grows (first.destination output <+: ·) first tree) :
    loadGraph tree path = loadGraph first path :=
  loadGraph_congr (safe.steady tree grown)

theorem digestAt_of_safe {path : Path} (safe : Safe first output path)
    (grown : Tree.Grows (first.destination output <+: ·) first tree) :
    graphAt tree path = graphAt first path ∧ digestAt tree path = digestAt first path := by
  unfold digestAt graphAt
  rw [loadGraph_of_safe safe grown]
  exact ⟨rfl, rfl⟩

theorem groupInto_of_safe {item : String × List Path}
    (safe : ∀ path ∈ item.2, Safe first output path)
    (grown : Tree.Grows (first.destination output <+: ·) first tree) :
    keptFiles tree item.2 = keptFiles first item.2 ∧
      groupInto tree output item = groupInto first output item := by
  have kept : keptFiles tree item.2 = keptFiles first item.2 :=
    firsts_congr fun path member => (digestAt_of_safe (safe path member) grown).2
  unfold groupInto loadedGroup
  rw [kept]
  exact ⟨rfl, rfl⟩

theorem keptFiles_sublist (tree : Tree) (paths : List Path) :
    (keptFiles tree paths).Sublist paths :=
  firsts_sublist _ _

theorem keptGraphs_map_snd (tree : Tree) (paths : List Path) :
    (keptGraphs tree paths).map Prod.snd = keptFiles tree paths := by
  unfold keptGraphs
  rw [List.map_map]
  exact List.map_id _

theorem keptGraphs_paths (tree : Tree) (paths : List Path) (output : Path) :
    (keptGraphs tree paths).map (fun survivor => keptPath output survivor.2) =
      (keptFiles tree paths).map (keptPath output) := by
  rw [← keptGraphs_map_snd, List.map_map]
  rfl

theorem forall_keptGraphs {holds : Path → Prop} (each : ∀ path ∈ paths, holds path) (tree : Tree) :
    ∀ survivor ∈ keptGraphs tree paths, holds survivor.2 := by
  intro survivor member
  have kept := List.mem_map_of_mem (f := Prod.snd) member
  rw [keptGraphs_map_snd] at kept
  exact each _ ((keptFiles_sublist _ _).subset kept)

/-- A group of files that all hold graphs is what its files make it. -/
theorem dedupGraphs_loadable {binary : String} {group : GraphGroup} {w last : Workspace}
    (loadable : ∀ path ∈ paths, Loadable w.tree path)
    (done : (dedupGraphs (some output) binary paths).on w = (.ok group, last)) :
    group = groupInto w.tree output (binary, paths) ∧
      Ran (writeSurvivor output) w.tree (keptGraphs w.tree paths)
        ((keptFiles w.tree paths).map (keptPath output)) last.tree := by
  rw [on_dedupGraphs loadable] at done
  obtain ⟨written, middle, writing, further⟩ := Job.on_bind_ok done
  obtain ⟨_, _, reported, built⟩ := Job.on_bind_ok further
  cases reported
  cases built
  have ran := ran_of_mapM writing
  have files := written_of_ran ran
  rw [keptGraphs_paths] at files
  subst files
  exact ⟨rfl, ran⟩

/-- A batch of groups of files that all hold graphs makes of every group what its files make it. -/
theorem groups_of_ran {items : List (String × List Path)} {groups : List GraphGroup}
    (ran : Ran (fun (binary, paths) => dedupGraphs (some output) binary paths) tree items groups
      later)
    (grown : Tree.Grows (first.destination output <+: ·) first tree)
    (safe : ∀ item ∈ items, ∀ path ∈ item.2, Safe first output path)
    (loadable : ∀ item ∈ items, ∀ path ∈ item.2, Loadable first path) :
    groups = items.map (groupInto first output) := by
  induction ran with
  | nil => rfl
  | @cons w middle item group items groups later start others ih =>
      rw [List.forall_mem_cons] at safe loadable
      -- What the groups before wrote did not touch the files of this one.
      have here : ∀ path ∈ item.2, Loadable w.tree path := fun path member => by
        unfold Loadable
        rw [loadGraph_of_safe (safe.1 path member) grown]
        exact loadable.1 path member
      obtain ⟨shape, writes⟩ := dedupGraphs_loadable here start
      have placed := forall_keptGraphs (fun path member => (safe.1 path member).placed) w.tree
      have below := grows_below writes placed
      rw [grown.destination] at below
      rw [List.map_cons, ih (grown.trans below) safe.2 loadable.2, shape,
        (groupInto_of_safe safe.1 grown).2]

end

/-! ## Writing where there is room -/

structure Suits (directory path : Path) : Prop where
  placed : Placed path
  parent : Tree.Fits path.parent.name
  name : Tree.Fits path.name
  usable : ¬ Tree.Unusable (keptPath directory path)

theorem Placed.twoBelow {path : Path} (placed : Placed path) (directory : Path) :
    keptPath directory path = Tree.twoBelow directory path.parent.name path.name := by
  rw [placed.keptPath_eq]
  simp [Tree.twoBelow]

theorem writeSurvivor_roomy {survivor : Value × Path} {w : Workspace}
    (roomy : w.tree.Roomy output) (suits : Suits output survivor.2) :
    ∃ later, (writeSurvivor output survivor).on w = (.ok (keptPath output survivor.2), later) ∧
      later.tree.Roomy output := by
  have usable := suits.usable
  rw [suits.placed.twoBelow] at usable
  obtain ⟨tree, placed, room⟩ := roomy.place usable suits.parent suits.name survivor.1.render
  have put : putGraph output survivor w.tree = (.ok (keptPath output survivor.2), tree) := by
    unfold putGraph
    rw [suits.placed.twoBelow, placed]
    rfl
  obtain ⟨later, ran, rfl⟩ := (acts_writeSurvivor output survivor).exists_on put
  exact ⟨later, ran, room⟩

theorem mapM_writeSurvivor_roomy {survivors : List (Value × Path)} {w : Workspace}
    (roomy : w.tree.Roomy output) (suits : ∀ survivor ∈ survivors, Suits output survivor.2) :
    ∃ later, (survivors.mapM (writeSurvivor output)).on w =
        (.ok (survivors.map fun survivor => keptPath output survivor.2), later) ∧
      later.tree.Roomy output := by
  induction survivors generalizing w with
  | nil => exact ⟨w, rfl, roomy⟩
  | cons survivor rest ih =>
      rw [List.forall_mem_cons] at suits
      obtain ⟨middle, first, room⟩ := writeSurvivor_roomy roomy suits.1
      obtain ⟨later, others, left⟩ := ih room suits.2
      refine ⟨later, ?_, left⟩
      rw [List.mapM_cons, Job.on_bind_of_ok first, Job.on_bind_of_ok others]
      rfl

theorem dedupGraphs_roomy (binary : String) {paths : List Path} {w : Workspace}
    (roomy : w.tree.Roomy output) (loadable : ∀ path ∈ paths, Loadable w.tree path)
    (suits : ∀ path ∈ paths, Suits output path) :
    ∃ later, (dedupGraphs (some output) binary paths).on w =
        (.ok (groupInto w.tree output (binary, paths)), later) ∧
      later.tree.Roomy output ∧
      Tree.Grows (w.tree.destination output <+: ·) w.tree later.tree := by
  have kept := forall_keptGraphs suits w.tree
  obtain ⟨middle, writing, room⟩ := mapM_writeSurvivor_roomy roomy kept
  rw [keptGraphs_paths] at writing
  have grows :=
    grows_below (ran_of_mapM writing) fun survivor member => (kept survivor member).placed
  have done : (dedupGraphs (some output) binary paths).on w =
      (.ok (groupInto w.tree output (binary, paths)),
        { middle with journal := middle.journal ++ [.groupDeduplicated binary paths.length
          (keptFiles w.tree paths).length] }) := by
    rw [on_dedupGraphs loadable, Job.on_bind_of_ok writing]
    rfl
  exact ⟨_, done, room, grows⟩

/-- A batch of groups of files that all hold graphs succeeds where there is room for its output. -/
theorem dedup_roomy {items : List (String × List Path)} {workers : Int} {w : Workspace}
    (roomy : w.tree.Roomy output)
    (safe : ∀ item ∈ items, ∀ path ∈ item.2, Safe w.tree output path)
    (loadable : ∀ item ∈ items, ∀ path ∈ item.2, Loadable w.tree path)
    (suits : ∀ item ∈ items, ∀ path ∈ item.2, Suits output path)
    (pool : poolFault? workers items.length = none) :
    ∃ later, (forkJoin workers (fun (binary, paths) => dedupGraphs (some output) binary paths)
      items).on w = (.ok (items.map (groupInto w.tree output)), later) := by
  let reached (tree : Tree) : Prop :=
    tree.Roomy output ∧ Tree.Grows (w.tree.destination output <+: ·) w.tree tree
  have acts (item : String × List Path) :=
    (gathering_dedupGraphs (some output) item.1).acts item.2
  obtain ⟨turns, later, ran, chain, same, steps⟩ := forkJoin_turns acts pool w
  -- Every turn finds room, and the graphs as they were.
  have turn : ∀ turn ∈ turns, reached turn.before →
      turn.result = .ok (groupInto w.tree output turn.item) ∧ reached turn.after := by
    rintro turn member ⟨room, grown⟩
    have inside : turn.item ∈ items := same ▸ List.mem_map_of_mem member
    have here : ∀ path ∈ turn.item.2, Loadable turn.before path := fun path there => by
      unfold Loadable
      rw [loadGraph_of_safe (safe _ inside path there) grown]
      exact loadable _ inside path there
    obtain ⟨last, done, left, grows⟩ := dedupGraphs_roomy turn.item.1 (w := ⟨turn.before, []⟩)
      room here (suits _ inside)
    rw [grown.destination] at grows
    have acted := ((acts turn.item).of_on done).symm.trans (steps turn member)
    obtain ⟨result, after⟩ := Prod.mk.inj acted
    rw [← result, ← after, (groupInto_of_safe (safe _ inside) grown).2]
    exact ⟨rfl, left, grown.trans grows⟩
  have before := chain.before (fun t member holds => (turn t member holds).2)
    ⟨roomy, .refl _ w.tree⟩
  have results : turns.map Tree.Turn.result =
      (items.map (groupInto w.tree output)).map .ok := by
    rw [← same, List.map_map, List.map_map]
    exact List.map_congr_left fun t member => (turn t member (before t member)).1
  refine ⟨later, ?_⟩
  rw [← mapM_map_ok (items.map (groupInto w.tree output)), ← results]
  exact ran

/-! ## What stands in the output directory -/

section

variable {tree later : Tree} {survivors : List (Value × Path)} {written : List Path}

theorem place_of_writeSurvivor {survivor : Value × Path} {path : Path} {w last : Workspace}
    (success : (writeSurvivor output survivor).on w = (.ok path, last)) :
    w.tree.place (keptPath output survivor.2) (.ok survivor.1.render) = (.ok (), last.tree) := by
  have put := (acts_writeSurvivor output survivor).of_on success
  unfold putGraph at put
  obtain ⟨outcome, left⟩ := Prod.mk.inj put
  obtain ⟨done, placed, -⟩ := Outcome.map_ok outcome
  exact Prod.ext placed left

/-- The files are those from before and those of the survivors. -/
theorem files_of_ran (ran : Ran (writeSurvivor output) tree survivors written later)
    (location : Location) :
    (∃ content, later.entry? location = some (.file content)) ↔
      location ∈ survivors.map (target tree output) ∨
        ∃ content, tree.entry? location = some (.file content) := by
  induction ran with
  | nil => simp
  | @cons w middle survivor path survivors written later first others ih =>
      have placed := place_of_writeSurvivor first
      rcases Tree.files_of_place placed with ⟨-, puts⟩ | ⟨⟨fault, stopped⟩, -⟩
      · obtain ⟨-, -, grows⟩ := writeSurvivor_ok first
        rw [ih, target_of_grows grows, List.map_cons, List.mem_cons]
        by_cases here : location = target w.tree output survivor
        · simp only [here, true_or, iff_true]
          exact .inr puts.stands
        · simp only [puts.others location here, here, false_or]
      · cases stopped

theorem once_of_ran {within : Location → Prop}
    (ran : Ran (writeSurvivor output) tree survivors written later)
    (once : Tree.Once within tree) : Tree.Once within later := by
  induction ran with
  | nil => exact once
  | @cons w middle survivor path survivors written later first others ih =>
      refine ih ?_
      have placed := once.place (keptPath output survivor.2) (.ok survivor.1.render)
      rwa [place_of_writeSurvivor first] at placed

/-- The output directory is there if anything was written. -/
theorem isDirectory_of_ran (fresh : tree.Fresh output)
    (ran : Ran (writeSurvivor output) tree survivors written later)
    (placed : ∀ survivor ∈ survivors, Placed survivor.2) :
    later.isDirectory output = .ok true ∨
      survivors = [] ∧ later.isDirectory output = .ok false := by
  cases ran with
  | nil =>
      obtain ⟨there, found⟩ := fresh.isDirectory
      cases there with
      | true => exact .inl found
      | false => exact .inr ⟨rfl, found⟩
  | @cons w middle survivor path survivors written later first others =>
      left
      obtain ⟨-, holds, -⟩ := writeSurvivor_ok first
      have located := holds.located
      rw [(writeSurvivor_ok first).1, (placed _ List.mem_cons_self).twoBelow] at located
      obtain ⟨parent, above, -⟩ := Tree.hasDirectory_above located
      obtain ⟨location, reached, stands⟩ := Tree.hasDirectory_above above
      have grows := grows_of_ran others
      exact Tree.isDirectory_of_hasDirectory
        ⟨location, grows.locate reached, grows.directories location stands⟩

end

/-- In a fresh directory are just the files of the survivors, unless two of them are the same. -/
theorem Survived.filesBelow {tree later : Tree} {groups : List GraphGroup}
    {survivors : List (Value × Path)} (survived : Survived tree tree output groups survivors later)
    (fresh : tree.Fresh output)
    (distinct : ((groups.flatMap GraphGroup.kept).map Path.lastNames).Nodup) :
    ∃ files, later.filesBelow output true = .ok files ∧
      files.Perm (groups.flatMap GraphGroup.written) := by
  have grows := grows_of_ran survived.ran
  have same : later.Below output = tree.Below output := by
    unfold Tree.Below
    rw [grows.destination]
  rcases isDirectory_of_ran fresh survived.ran survived.placed with there | ⟨rfl, absent⟩
  · let names (path : Path) : List String := [path.parent.name, path.name]
    have written : groups.flatMap GraphGroup.written =
        ((groups.flatMap GraphGroup.kept).map names).map (Tree.beneath output) := by
      rw [survived.written_eq, List.map_map, List.map_map]
      rfl
    rw [written]
    refine Tree.filesBelow_perm there ?_ ?_ ?_ ?_ ?_
    · rw [same]
      exact once_of_ran survived.ran (Tree.once_of_absent fun _ below => fresh.absent below)
    · intro location below
      rw [same] at below
      have absent := fresh.absent below
      unfold Tree.entry? at absent
      rw [grows.current]
      split at absent
      · cases absent
      · rename_i elsewhere
        exact Bool.eq_false_of_not_eq_true elsewhere
    · intro more nonempty
      rw [grows.destination, files_of_ran survived.ran, ← survived.paths, List.map_map]
      have before : ¬ ∃ content, tree.entry? (tree.destination output ++ more) =
          some (.file content) := by
        rintro ⟨content, file⟩
        rw [fresh.absent ⟨more, nonempty, rfl⟩] at file
        cases file
      rw [or_iff_left before, List.mem_map, List.mem_map]
      refine exists_congr fun survivor => and_congr_right fun member => ?_
      unfold target
      rw [(survived.placed survivor member).destination, List.append_cancel_left_eq]
      rfl
    · simp [names]
    · have apart : ((groups.flatMap GraphGroup.kept).map names) =
          ((groups.flatMap GraphGroup.kept).map Path.lastNames).map fun pair =>
            [pair.1, pair.2] := by
        rw [List.map_map]
        rfl
      rw [apart]
      refine distinct.map ?_
      rintro ⟨a, b⟩ ⟨c, d⟩ pair
      simpa using pair
  · have none : groups.flatMap GraphGroup.written = [] := by
      rw [survived.written_eq, ← survived.paths]
      rfl
    refine ⟨[], ?_, by rw [none]⟩
    unfold Tree.filesBelow
    rw [absent]
    rfl

/-! ## The groups of what was written -/

section

variable {tree : Tree} {files : List Path}

theorem Placed.lastNames {path : Path} (placed : Placed path) (directory : Path) :
    (keptPath directory path).parent.name = path.parent.name ∧
      (keptPath directory path).name = path.name := by
  rw [placed.keptPath_eq]
  simp [Path.parent, Path.name]

theorem Placed.lastNames_keptPath {path : Path} (placed : Placed path) (directory : Path) :
    (keptPath directory path).lastNames = path.lastNames := by
  obtain ⟨parent, name⟩ := placed.lastNames directory
  unfold Path.lastNames
  rw [parent, name]

theorem Placed.keptPath_keptPath {path : Path} (placed : Placed path) (directory again : Path) :
    keptPath again (keptPath directory path) = keptPath again path := by
  unfold keptPath
  obtain ⟨parent, name⟩ := placed.lastNames directory
  unfold keptPath at parent name
  rw [parent, name]

theorem Placed.binaryOf? {path : Path} (placed : Placed path) (directory : Path) :
    Dedup.binaryOf? format (keptPath directory path) = Dedup.binaryOf? format path := by
  unfold Dedup.binaryOf? binaryName
  rw [(placed.lastNames directory).1]

def groupsInto (tree : Tree) (output : Path) (format : Except Fault PathFormat)
    (files : List Path) : List GraphGroup :=
  (groupsOf format files).map (groupInto tree output)

theorem binaries_groupsInto (tree : Tree) (output : Path) (format : Except Fault PathFormat)
    (files : List Path) :
    (groupsInto tree output format files).map GraphGroup.binary = binariesOf format files := by
  unfold groupsInto groupsOf
  rw [List.map_map, List.map_map]
  exact List.map_id _

theorem mem_groupsInto {group : GraphGroup} :
    group ∈ groupsInto tree output format files ↔
      ∃ binary ∈ binariesOf format files,
        groupInto tree output (binary, filesNaming format binary files) = group := by
  unfold groupsInto groupsOf
  rw [List.map_map, List.mem_map]
  rfl

theorem written_of_mem {group : GraphGroup}
    (member : group ∈ groupsInto tree output format files) :
    group.written = group.kept.map (keptPath output) := by
  obtain ⟨binary, -, rfl⟩ := mem_groupsInto.mp member
  rfl

theorem unique_of_mem {group : GraphGroup}
    (member : group ∈ groupsInto tree output format files) :
    group.statistics.unique = group.kept.length := by
  obtain ⟨binary, -, rfl⟩ := mem_groupsInto.mp member
  rfl

theorem mem_kept {group : GraphGroup} {path : Path}
    (member : group ∈ groupsInto tree output format files) (kept : path ∈ group.kept) :
    path ∈ files ∧ binaryOf? format path = some group.binary := by
  obtain ⟨binary, -, rfl⟩ := mem_groupsInto.mp member
  exact mem_filesNaming.mp ((keptFiles_sublist _ _).subset kept)

theorem kept_ne_nil {group : GraphGroup} (member : group ∈ groupsInto tree output format files) :
    group.kept ≠ [] := by
  obtain ⟨binary, known, rfl⟩ := mem_groupsInto.mp member
  intro none
  obtain ⟨path, there⟩ := List.exists_mem_of_ne_nil _ (filesNaming_ne_nil known)
  have found : digestAt tree path ∈
      (firsts (digestAt tree) (filesNaming format binary files)).map (digestAt tree) :=
    mem_map_firsts.mpr (List.mem_map_of_mem there)
  have empty : firsts (digestAt tree) (filesNaming format binary files) = [] := none
  rw [empty] at found
  cases found

/-- Files that have different last names do so in their groups. -/
theorem nodup_kept (distinct : (files.map Path.lastNames).Nodup) :
    (((groupsInto tree output format files).flatMap GraphGroup.kept).map Path.lastNames).Nodup := by
  have injective := List.inj_on_of_nodup_map distinct
  rw [List.map_flatMap, List.nodup_flatMap]
  constructor
  · intro group member
    obtain ⟨binary, -, rfl⟩ := mem_groupsInto.mp member
    exact distinct.sublist
      (((keptFiles_sublist _ _).trans List.filter_sublist).map Path.lastNames)
  · have apart : (groupsInto tree output format files).Pairwise
        fun a b => a.binary ≠ b.binary := by
      rw [← List.pairwise_map (R := (· ≠ ·)), binaries_groupsInto]
      exact nodup_binariesOf format files
    refine apart.imp_of_mem fun {a b} first second different => ?_
    intro names one two
    obtain ⟨p, inA, rfl⟩ := List.mem_map.mp one
    obtain ⟨q, inB, same⟩ := List.mem_map.mp two
    obtain ⟨p', namedA⟩ := mem_kept first inA
    obtain ⟨q', namedB⟩ := mem_kept second inB
    -- One file with these names would be of both binaries.
    obtain rfl := injective q' p' same
    exact different (Option.some.inj (namedA.symm.trans namedB))

/-- What was written under the name of one binary is what the group of it wrote. -/
theorem filesNaming_written {group : GraphGroup}
    (placed : ∀ other ∈ groupsInto tree output format files, ∀ path ∈ other.kept, Placed path)
    (member : group ∈ groupsInto tree output format files) :
    filesNaming format group.binary
      ((groupsInto tree output format files).flatMap GraphGroup.written) = group.written := by
  have named : ∀ other ∈ groupsInto tree output format files,
      filesNaming format group.binary other.written =
        if other.binary = group.binary then other.written else [] := by
    intro other there
    have binary : ∀ path ∈ other.written, binaryOf? format path = some other.binary := by
      intro path inside
      rw [written_of_mem there] at inside
      obtain ⟨p, kept, rfl⟩ := List.mem_map.mp inside
      rw [(placed other there p kept).binaryOf?, (mem_kept there kept).2]
    unfold filesNaming
    split
    · rename_i same
      refine List.filter_eq_self.mpr fun path inside => ?_
      rw [binary path inside, same, beq_self_eq_true]
    · rename_i different
      refine List.filter_eq_nil_iff.mpr fun path inside => ?_
      rw [binary path inside]
      simpa using different
  have distinct : ((groupsInto tree output format files).map GraphGroup.binary).Nodup := by
    rw [binaries_groupsInto]
    exact nodup_binariesOf format files
  have pieces : filesNaming format group.binary
      ((groupsInto tree output format files).flatMap GraphGroup.written) =
        (groupsInto tree output format files).flatMap fun other =>
          filesNaming format group.binary other.written := by
    unfold filesNaming
    rw [List.filter_flatMap]
  rw [pieces]
  -- Only the group of the binary itself has a piece.
  generalize groupsInto tree output format files = groups at member named distinct
  induction groups with
  | nil => cases member
  | cons first rest ih =>
      rw [List.forall_mem_cons] at named
      obtain ⟨fresh, others⟩ := List.nodup_cons.mp distinct
      rw [List.flatMap_cons, named.1]
      rcases List.mem_cons.mp member with rfl | behind
      · have none : rest.flatMap (fun other => filesNaming format group.binary other.written) =
            [] := by
          refine List.flatMap_eq_nil_iff.mpr fun other there => ?_
          rw [named.2 other there, if_neg]
          intro same
          exact fresh (List.mem_map.mpr ⟨other, there, same⟩)
        rw [if_pos rfl, none, List.append_nil]
      · rw [if_neg, List.nil_append, ih behind named.2 others]
        intro same
        exact fresh (List.mem_map.mpr ⟨group, behind, same.symm⟩)

end

/-! ## A second run -/

/-- What holds a graph below one directory can be put below a fresh one, if the path is not too
long. -/
theorem suits_of_loadable {tree : Tree} {again path : Path} (placed : Placed path)
    (loadable : Loadable tree (keptPath output path)) (fresh : tree.Fresh again)
    (short : (keptPath again path).text.utf8ByteSize ≤ Tree.pathLimit) :
    Suits again (keptPath output path) := by
  obtain ⟨parent, name⟩ := placed.lastNames output
  obtain ⟨located, -⟩ := loadable.located
  rw [placed.twoBelow] at located
  obtain ⟨clean, -, followed⟩ := Tree.locate_ok_iff.mp located
  obtain ⟨above, -, -, second, -⟩ := Tree.follow_concat_ok followed
  obtain ⟨middle, there, -⟩ := Tree.hasDirectory_above located
  obtain ⟨-, -, reached⟩ := Tree.locate_ok_iff.mp there
  obtain ⟨-, -, -, first, -⟩ := Tree.follow_concat_ok reached
  refine ⟨⟨?_, ?_⟩, ⟨?_, ?_⟩, ⟨?_, ?_⟩, ?_⟩
  · rw [parent]
    exact placed.parent
  · rw [name]
    exact placed.name
  · rw [parent]
    exact placed.parent.noDoubleDot
  · rw [parent]
    exact first.resolve_left placed.parent.noDoubleDot
  · rw [name]
    exact placed.name.noDoubleDot
  · rw [name]
    exact second.resolve_left placed.name.noDoubleDot
  · rw [placed.keptPath_keptPath]
    refine Tree.usable_iff.mpr ⟨?_, short⟩
    -- No null character stands in the fresh directory or in the names.
    rcases made : tree.ensured again with ⟨outcome, later⟩
    have done := fresh.made
    rw [made] at done
    subst done
    obtain ⟨location, found, -⟩ := Tree.hasDirectory_of_ensured made
    obtain ⟨pure, -, -⟩ := Tree.locate_ok_iff.mp found
    rw [placed.twoBelow]
    unfold Tree.twoBelow at clean ⊢
    rw [Tree.hasNull_concat, Bool.or_eq_false_iff, Tree.hasNull_concat,
      Bool.or_eq_false_iff] at clean ⊢
    exact ⟨⟨pure, clean.1.2⟩, clean.2⟩

theorem mem_groupsOf {files : List Path} {item : String × List Path}
    (member : item ∈ groupsOf format files) {path : Path} (inside : path ∈ item.2) :
    path ∈ files ∧ binaryOf? format path = some item.1 := by
  obtain ⟨binary, -, rfl⟩ := List.mem_map.mp member
  exact mem_filesNaming.mp inside

/-- Deduplication of files that all hold graphs succeeds where there is room for its output. -/
theorem dedupDirectory_roomy {directory : Path} {workers : Int} {w : Workspace} {files : List Path}
    (listed : w.tree.filesBelow directory true = .ok files) (roomy : w.tree.Roomy output)
    (safe : ∀ path ∈ corpusFiles files, Safe w.tree output path)
    (loadable : ∀ path ∈ corpusFiles files, Loadable w.tree path)
    (suits : ∀ path ∈ corpusFiles files, Suits output path)
    (pool : poolFault? workers (binariesOf format (corpusFiles files)).length = none) :
    ∃ later, (dedupDirectory format directory output workers).on w =
        (.ok (groupsInto w.tree output format (corpusFiles files)), later) ∧
      ∃ survivors, Survived w.tree w.tree output
        (groupsInto w.tree output format (corpusFiles files)) survivors later.tree := by
  obtain ⟨middle, collected, same⟩ := on_ofDirectory format listed
  have count : (groupsOf format (corpusFiles files)).length =
      (binariesOf format (corpusFiles files)).length := List.length_map _
  rw [← count] at pool
  rw [← same] at roomy safe loadable ⊢
  have safeItems : ∀ item ∈ groupsOf format (corpusFiles files), ∀ path ∈ item.2,
      Safe middle.tree output path :=
    fun item member path inside => safe path (mem_groupsOf member inside).1
  obtain ⟨later, ran⟩ := dedup_roomy roomy safeItems
    (fun item member path inside => loadable path (mem_groupsOf member inside).1)
    (fun item member path inside => suits path (mem_groupsOf member inside).1) pool
  refine ⟨later, ?_, survived_of_ran (ran_of_forkJoin ran) (.refl _ _) safeItems⟩
  unfold dedupDirectory GraphCorpus.dedup
  rw [Job.on_bind_of_ok collected]
  exact ran

theorem first_run {input : String} {workers : Int} {w later : Workspace} {first : List GraphGroup}
    {files : List Path} (proper : w.tree.IsProper) (fresh : w.tree.Fresh output)
    (listed : w.tree.filesBelow (Path.ofText input) true = .ok files)
    (loadable : ∀ path ∈ corpusFiles files, Loadable w.tree path)
    (done : (dedupDirectory format (Path.ofText input) output workers).on w = (.ok first, later)) :
    first = groupsInto w.tree output format (corpusFiles files) ∧
      ∃ survivors, Survived w.tree w.tree output first survivors later.tree := by
  obtain ⟨middle, found, same⟩ := on_ofDirectory format listed
  unfold dedupDirectory at done
  rw [Job.on_bind_of_ok found] at done
  have ran := ran_of_forkJoin done
  rw [same] at ran
  have safe : ∀ item ∈ groupsOf format (corpusFiles files), ∀ path ∈ item.2,
      Safe w.tree output path := by
    intro item member path inside
    obtain ⟨known, named⟩ := mem_groupsOf member inside
    exact safe_of_fresh proper fresh listed (List.mem_of_mem_filter known) named
      (loadable path known)
  refine ⟨?_, survived_of_ran ran (.refl _ _) safe⟩
  exact groups_of_ran ran (.refl _ _) safe fun item member path inside =>
    loadable path (mem_groupsOf member inside).1

theorem Survived.survivors_eq {output : Path} {tree later : Tree} {groups : List GraphGroup}
    {survivors : List (Value × Path)}
    (survived : Survived tree tree output groups survivors later) :
    survivors = (groups.flatMap GraphGroup.kept).map fun path => (graphAt tree path, path) := by
  rw [← survived.paths, List.map_map]
  refine (List.map_id survivors).symm.trans (List.map_congr_left fun survivor member => ?_)
  obtain ⟨fields, graph, loaded⟩ := survived.loads survivor member
  refine Prod.ext ?_ rfl
  rw [Function.comp_apply, graphAt_of_ok loaded, ← graph]
  rfl

/-- Where no two survivors have both last names in common, all of them are found again. -/
theorem Survived.loadGraph_kept {tree later : Tree} {groups : List GraphGroup}
    {survivors : List (Value × Path)} (survived : Survived tree tree output groups survivors later)
    (distinct : ((groups.flatMap GraphGroup.kept).map Path.lastNames).Nodup) {path : Path}
    (member : path ∈ groups.flatMap GraphGroup.kept) :
    ∃ fields, loadGraph tree path = .ok fields ∧
      loadGraph later (keptPath output path) = .ok fields := by
  obtain ⟨front, back, shape⟩ := List.append_of_mem member
  rw [shape, List.map_append, List.map_cons, List.nodup_append] at distinct
  exact survived.loadGraph_last shape (List.nodup_cons.mp distinct.2.1).1

structure Leaves (before later : Tree) (output : Path) (format : Except Fault PathFormat)
    (files found : List Path) : Prop where
  listed : later.filesBelow output true = .ok found
  all : found.Perm ((groupsInto before output format files).flatMap GraphGroup.written)
  distinct : (files.map Path.lastNames).Nodup
  json : ∀ path ∈ files, path.name.endsWith GraphCorpus.ending = true
  placed : ∀ group ∈ groupsInto before output format files, ∀ path ∈ group.kept, Placed path
  graphs : ∀ group ∈ groupsInto before output format files, ∀ path ∈ group.kept, ∃ fields,
    loadGraph before path = .ok fields ∧ loadGraph later (keptPath output path) = .ok fields

theorem leaves_of_survived {before later : Tree} {files : List Path}
    {survivors : List (Value × Path)} (fresh : before.Fresh output)
    (distinct : ((corpusFiles files).map Path.lastNames).Nodup)
    (survived : Survived before before output
      (groupsInto before output format (corpusFiles files)) survivors later) :
    ∃ found, Leaves before later output format (corpusFiles files) found := by
  have apart : (((groupsInto before output format (corpusFiles files)).flatMap
      GraphGroup.kept).map Path.lastNames).Nodup := nodup_kept distinct
  obtain ⟨found, listed, all⟩ := survived.filesBelow fresh apart
  refine ⟨found, listed, all, distinct, fun path member => (List.mem_filter.mp member).2,
    fun group member path kept => ?_, fun group member path kept => ?_⟩
  · exact survived.placed_kept path (List.mem_flatMap_of_mem member kept)
  · exact survived.loadGraph_kept apart (List.mem_flatMap_of_mem member kept)

namespace Leaves

variable {before later : Tree} {files found : List Path}

theorem mem_found (leaves : Leaves before later output format files found) {path : Path} :
    path ∈ found ↔ ∃ group ∈ groupsInto before output format files, ∃ kept ∈ group.kept,
      keptPath output kept = path := by
  rw [leaves.all.mem_iff, List.mem_flatMap]
  refine exists_congr fun group => and_congr_right fun member => ?_
  rw [written_of_mem member, List.mem_map]

theorem loadable (leaves : Leaves before later output format files found) :
    ∀ path ∈ found, Loadable later path := by
  intro path member
  obtain ⟨group, there, kept, inside, rfl⟩ := leaves.mem_found.mp member
  obtain ⟨fields, -, loaded⟩ := leaves.graphs group there kept inside
  exact ⟨fields, loaded⟩

theorem corpusFiles_found (leaves : Leaves before later output format files found) :
    corpusFiles found = found := by
  refine List.filter_eq_self.mpr fun path member => ?_
  obtain ⟨group, there, kept, inside, rfl⟩ := leaves.mem_found.mp member
  rw [((leaves.placed group there kept inside).lastNames output).2]
  exact leaves.json kept (mem_kept there inside).1

theorem lastNames_found (leaves : Leaves before later output format files found) :
    (found.map Path.lastNames).Nodup := by
  have same : ((groupsInto before output format files).flatMap GraphGroup.written).map
      Path.lastNames =
        ((groupsInto before output format files).flatMap GraphGroup.kept).map Path.lastNames := by
    rw [List.map_flatMap, List.map_flatMap, List.flatMap_def, List.flatMap_def]
    congr 1
    refine List.map_congr_left fun group member => ?_
    rw [written_of_mem member, List.map_map]
    refine List.map_congr_left fun path kept => ?_
    rw [Function.comp_apply, (leaves.placed group member path kept).lastNames_keptPath]
  rw [(leaves.all.map Path.lastNames).nodup_iff, same]
  exact nodup_kept leaves.distinct

/-- The groups of what was written are the groups of the run. -/
theorem binaries (leaves : Leaves before later output format files found) :
    (binariesOf format found).Perm (binariesOf format files) := by
  rw [List.perm_ext_iff_of_nodup (nodup_binariesOf _ _) (nodup_binariesOf _ _)]
  intro binary
  rw [← binaries_groupsInto before output format files, mem_binariesOf, List.mem_map]
  constructor
  · rintro ⟨path, member, named⟩
    obtain ⟨group, there, kept, inside, rfl⟩ := leaves.mem_found.mp member
    rw [(leaves.placed group there kept inside).binaryOf?, (mem_kept there inside).2] at named
    exact ⟨group, there, Option.some.inj named⟩
  · rintro ⟨group, there, rfl⟩
    obtain ⟨kept, inside⟩ := List.exists_mem_of_ne_nil _ (kept_ne_nil there)
    refine ⟨keptPath output kept, leaves.mem_found.mpr ⟨group, there, kept, inside, rfl⟩, ?_⟩
    rw [(leaves.placed group there kept inside).binaryOf?, (mem_kept there inside).2]

theorem filesNaming_perm (leaves : Leaves before later output format files found)
    {group : GraphGroup} (member : group ∈ groupsInto before output format files) :
    (filesNaming format group.binary found).Perm group.written := by
  rw [← filesNaming_written leaves.placed member]
  exact leaves.all.filter _

/-- No two graphs of a group that was written are the same. -/
theorem keptFiles_found (leaves : Leaves before later output format files found)
    {group : GraphGroup} (member : group ∈ groupsInto before output format files) :
    keptFiles later (filesNaming format group.binary found) =
      filesNaming format group.binary found := by
  have digests : group.written.map (digestAt later) = group.kept.map (digestAt before) := by
    rw [written_of_mem member, List.map_map]
    refine List.map_congr_left fun path kept => ?_
    obtain ⟨fields, loaded, again⟩ := leaves.graphs group member path kept
    change graphDigest (graphAt later (keptPath output path)) = graphDigest (graphAt before path)
    rw [graphAt_of_ok loaded, graphAt_of_ok again]
  have distinct : (group.kept.map (digestAt before)).Nodup := by
    obtain ⟨binary, -, rfl⟩ := mem_groupsInto.mp member
    exact nodup_firsts _ _
  apply firsts_eq_self
  rw [((leaves.filesNaming_perm member).map (digestAt later)).nodup_iff, digests]
  exact distinct

theorem group_of_binary (leaves : Leaves before later output format files found) {binary : String}
    (known : binary ∈ binariesOf format found) :
    ∃ group ∈ groupsInto before output format files, group.binary = binary := by
  rw [leaves.binaries.mem_iff, ← binaries_groupsInto before output format files] at known
  exact List.mem_map.mp known

/-- The group that a second run makes of what a group wrote. -/
theorem again (leaves : Leaves before later output format files found) {group : GraphGroup}
    (member : group ∈ groupsInto before output format files) (directory : Path) :
    ∃ other ∈ groupsInto later directory format found, other.binary = group.binary ∧
      other.kept.Perm group.written ∧
      other.written.Perm (group.kept.map (keptPath directory)) := by
  have known : group.binary ∈ binariesOf format found := by
    rw [leaves.binaries.mem_iff, ← binaries_groupsInto before output format files]
    exact List.mem_map_of_mem member
  obtain ⟨other, there, binary, shape⟩ : ∃ other ∈ groupsInto later directory format found,
      other.binary = group.binary ∧
      other.kept = keptFiles later (filesNaming format group.binary found) :=
    ⟨_, mem_groupsInto.mpr ⟨group.binary, known, rfl⟩, rfl, rfl⟩
  have kept : other.kept.Perm group.written := by
    rw [shape, leaves.keptFiles_found member]
    exact leaves.filesNaming_perm member
  have written : other.written.Perm (group.kept.map (keptPath directory)) := by
    have paths : group.written.map (keptPath directory) =
        group.kept.map (keptPath directory) := by
      rw [written_of_mem member, List.map_map]
      refine List.map_congr_left fun path inside => ?_
      rw [Function.comp_apply, (leaves.placed group member path inside).keptPath_keptPath]
    rw [written_of_mem there, ← paths]
    exact kept.map _
  exact ⟨other, there, binary, kept, written⟩

end Leaves

/-- What a second run makes of the groups that a first one left in its output directory: it has the
same groups, removes nothing, and writes the same files. -/
structure Repeated (before after : Tree) (output again : Path) (first second : List GraphGroup) :
    Prop where
  binaries : (second.map GraphGroup.binary).Perm (first.map GraphGroup.binary)
  nothing : ∀ group ∈ second, group.failed = [] ∧ group.statistics.removed = 0
  groups : ∀ group ∈ first, ∃ other ∈ second, other.binary = group.binary ∧
    other.statistics.unique = group.statistics.unique ∧ other.kept.Perm group.written ∧
    group.written = group.kept.map (keptPath output) ∧
    other.written.Perm (group.kept.map (keptPath again))
  graphs : ∀ group ∈ first, ∀ path ∈ group.kept, ∃ fields,
    loadGraph before path = .ok fields ∧
    loadGraph after (keptPath output path) = .ok fields ∧
    loadGraph after (keptPath again path) = .ok fields

/-- Deduplicating what a run left succeeds where there is room for it, and repeats the run. -/
theorem Leaves.repeated {before : Tree} {files found : List Path} {again : Path} {workers : Int}
    {w : Workspace} (leaves : Leaves before w.tree output format files found)
    (fresh : w.tree.Fresh again)
    (short : ∀ group ∈ groupsInto before output format files, ∀ path ∈ group.kept,
      (keptPath again path).text.utf8ByteSize ≤ Tree.pathLimit)
    (pool : poolFault? workers (groupsInto before output format files).length = none) :
    ∃ second last, (dedupDirectory format output again workers).on w = (.ok second, last) ∧
      Repeated before last.tree output again (groupsInto before output format files) second := by
  have suits : ∀ path ∈ found, Suits again path := by
    intro path member
    obtain ⟨group, there, kept, inside, rfl⟩ := leaves.mem_found.mp member
    exact suits_of_loadable (leaves.placed group there kept inside) (leaves.loadable _ member) fresh
      (short group there kept inside)
  have safe : ∀ path ∈ found, Safe w.tree again path := fun path member =>
    ⟨(suits path member).placed, steady_of_fresh fresh (leaves.loadable path member)⟩
  have loadable := leaves.loadable
  have count : (groupsInto before output format files).length =
      (binariesOf format found).length := by
    rw [leaves.binaries.length_eq, ← binaries_groupsInto before output, List.length_map]
  rw [count] at pool
  rw [← leaves.corpusFiles_found] at suits safe loadable pool
  obtain ⟨last, done, survivors, survived⟩ :=
    dedupDirectory_roomy leaves.listed fresh.roomy safe loadable suits pool
  have grows := grows_below survived.ran survived.placed
  rw [leaves.corpusFiles_found] at done survived
  refine ⟨_, last, done, ?_, ?_, ?_, ?_⟩
  · rw [binaries_groupsInto, binaries_groupsInto]
    exact leaves.binaries
  · intro other member
    obtain ⟨binary, known, rfl⟩ := mem_groupsInto.mp member
    obtain ⟨group, there, rfl⟩ := leaves.group_of_binary known
    refine ⟨rfl, ?_⟩
    simp [groupInto, loadedGroup, Statistics.removed, leaves.keptFiles_found there]
  · intro group member
    obtain ⟨other, there, binary, kept, written⟩ := leaves.again member again
    refine ⟨other, there, binary, ?_, kept, written_of_mem member, written⟩
    rw [unique_of_mem there, unique_of_mem member, kept.length_eq, written_of_mem member,
      List.length_map]
  · intro group member path kept
    obtain ⟨fields, loaded, left⟩ := leaves.graphs group member path kept
    obtain ⟨other, there, -, keptAgain, -⟩ := leaves.again member again
    have written : keptPath output path ∈ group.written := by
      rw [written_of_mem member]
      exact List.mem_map_of_mem kept
    have known := List.mem_flatMap_of_mem there (keptAgain.symm.subset written)
    obtain ⟨others, before, after⟩ :=
      survived.loadGraph_kept (nodup_kept leaves.lastNames_found) known
    rw [left] at before
    cases before
    rw [(leaves.placed group member path kept).keptPath_keptPath] at after
    have steady := steady_of_fresh fresh ⟨fields, left⟩ last.tree grows
    exact ⟨fields, loaded, (loadGraph_congr steady).trans left, after⟩

/-! ## Three files -/

def twoAlike : Tree where
  entries := [(["g"], .directory), (["g", "arm_ls_gcc"], .directory),
    (["g", "arm_ls_gcc", "a.json"], holding emptyGraph),
    (["g", "arm_ls_gcc", "b.json"], holding emptyGraph), (["g", "x86_ls_gcc"], .directory),
    (["g", "x86_ls_gcc", "c.json"], holding singleNode)]

def alikeFiles : List Path :=
  [⟨"", ["g", "arm_ls_gcc", "a.json"]⟩, ⟨"", ["g", "arm_ls_gcc", "b.json"]⟩,
    ⟨"", ["g", "x86_ls_gcc", "c.json"]⟩]

def oneEach : Tree where
  entries := twoAlike.entries ++ [(["o"], .directory), (["o", "arm_ls_gcc"], .directory),
    (["o", "arm_ls_gcc", "a.json"], holding emptyGraph), (["o", "x86_ls_gcc"], .directory),
    (["o", "x86_ls_gcc", "c.json"], holding singleNode)]

def firstGroup : GraphGroup where
  binary := "ls"
  kept := [⟨"", ["g", "arm_ls_gcc", "a.json"]⟩, ⟨"", ["g", "x86_ls_gcc", "c.json"]⟩]
  statistics := ⟨3, 2⟩
  written := [⟨"", ["o", "arm_ls_gcc", "a.json"]⟩, ⟨"", ["o", "x86_ls_gcc", "c.json"]⟩]

theorem loadGraph_twoAlike :
    loadGraph twoAlike ⟨"", ["g", "arm_ls_gcc", "a.json"]⟩ = .ok emptyGraph ∧
      loadGraph twoAlike ⟨"", ["g", "arm_ls_gcc", "b.json"]⟩ = .ok emptyGraph ∧
      loadGraph twoAlike ⟨"", ["g", "x86_ls_gcc", "c.json"]⟩ = .ok singleNode := by
  refine ⟨?_, ?_, ?_⟩
  · exact loadGraph_ok_iff.mpr ⟨_, by decide +kernel, decode_emptyGraph, rfl⟩
  · exact loadGraph_ok_iff.mpr ⟨_, by decide +kernel, decode_emptyGraph, rfl⟩
  · exact loadGraph_ok_iff.mpr ⟨_, by decide +kernel, decode_singleNode, rfl⟩

theorem groupsInto_twoAlike :
    groupsInto twoAlike (Path.ofText "o") (.ok .cisco) alikeFiles = [firstGroup] := by
  have groups : groupsOf (.ok .cisco) alikeFiles = [("ls", alikeFiles)] := by decide +kernel
  obtain ⟨first, second, third⟩ := loadGraph_twoAlike
  have kept : keptFiles twoAlike alikeFiles = firstGroup.kept := by
    unfold keptFiles firsts alikeFiles
    simp only [firstsAfter, digestAt, graphAt_of_ok first, graphAt_of_ok second,
      graphAt_of_ok third]
    simp [digests_differ.symm, firstGroup]
  have written : firstGroup.kept.map (keptPath (Path.ofText "o")) = firstGroup.written := by
    decide +kernel
  unfold groupsInto groupInto loadedGroup
  rw [groups, List.map_singleton]
  dsimp only
  rw [kept, written]
  rfl

theorem tree_of_twoAlike {survivors : List (Value × Path)} {later : Tree}
    (survived : Survived twoAlike twoAlike (Path.ofText "o") [firstGroup] survivors later) :
    later = oneEach := by
  have put := inTurn_of_ran (acts_writeSurvivor (Path.ofText "o")) survived.ran
  have graphs : survivors = [(.obj emptyGraph, ⟨"", ["g", "arm_ls_gcc", "a.json"]⟩),
      (.obj singleNode, ⟨"", ["g", "x86_ls_gcc", "c.json"]⟩)] := by
    obtain ⟨first, -, third⟩ := loadGraph_twoAlike
    rw [survived.survivors_eq]
    simp [firstGroup, graphAt_of_ok first, graphAt_of_ok third]
  have run : (Tree.inTurn (putGraph (Path.ofText "o"))
      [(.obj emptyGraph, ⟨"", ["g", "arm_ls_gcc", "a.json"]⟩),
        (.obj singleNode, ⟨"", ["g", "x86_ls_gcc", "c.json"]⟩)] twoAlike).2 = oneEach := by
    decide +kernel
  rw [← run, ← graphs, put]

/-! ## Two runs -/

/-- Deduplicating what deduplication left in a fresh directory into another fresh directory removes
nothing, has the same groups and writes the same files, if no two files of the input have both last
names in common and the paths are not too long. -/
theorem dedupDirectory_again {input : String} {again : Path} {workers others : Int}
    {w later : Workspace} {first : List GraphGroup} {files : List Path} (proper : w.tree.IsProper)
    (fresh : w.tree.Fresh output)
    (listed : w.tree.filesBelow (Path.ofText input) true = .ok files)
    (loadable : ∀ path ∈ corpusFiles files, Loadable w.tree path)
    (distinct : ((corpusFiles files).map Path.lastNames).Nodup)
    (done : (dedupDirectory format (Path.ofText input) output workers).on w = (.ok first, later))
    (clear : later.tree.Fresh again)
    (short : ∀ group ∈ first, ∀ path ∈ group.kept,
      (keptPath again path).text.utf8ByteSize ≤ Tree.pathLimit)
    (pool : poolFault? others first.length = none) :
    ∃ second last, (dedupDirectory format output again others).on later = (.ok second, last) ∧
      Repeated w.tree last.tree output again first second := by
  obtain ⟨rfl, survivors, survived⟩ := first_run proper fresh listed loadable done
  obtain ⟨found, leaves⟩ := leaves_of_survived fresh distinct survived
  exact leaves.repeated clear short pool

/-- Of two files with one graph one is left, which a second run leaves as it is. -/
theorem dedupDirectory_again_twoAlike :
    twoAlike.IsProper ∧ twoAlike.Fresh (Path.ofText "o") ∧
      twoAlike.filesBelow (Path.ofText "g") true = .ok alikeFiles ∧
      ∃ later, (dedupDirectory (.ok .cisco) (Path.ofText "g") (Path.ofText "o") 1).on
          ⟨twoAlike, []⟩ = (.ok [firstGroup], later) ∧
        later.tree.Fresh (Path.ofText "p") ∧
        ∃ second last, (dedupDirectory (.ok .cisco) (Path.ofText "o") (Path.ofText "p") 1).on
            later = (.ok second, last) ∧
          Repeated twoAlike last.tree (Path.ofText "o") (Path.ofText "p") [firstGroup] second := by
  have proper : twoAlike.IsProper :=
    Tree.isProper_of_entries rfl (by decide +kernel) (by decide +kernel)
  have fresh : twoAlike.Fresh (Path.ofText "o") :=
    Tree.fresh_of_entries rfl (by decide +kernel) (by decide +kernel)
  have listed : twoAlike.filesBelow (Path.ofText "g") true = .ok alikeFiles :=
    Tree.filesBelow_of_sorted ["g"] (by decide +kernel) (by decide +kernel) (by decide +kernel)
      (by decide +kernel)
  have all : corpusFiles alikeFiles = alikeFiles := by decide +kernel
  have named : ∀ path ∈ alikeFiles, binaryOf? (.ok .cisco) path = some "ls" := by decide +kernel
  have loadable : ∀ path ∈ corpusFiles alikeFiles, Loadable twoAlike path := by
    obtain ⟨first, second, third⟩ := loadGraph_twoAlike
    rw [all]
    simp only [alikeFiles, List.forall_mem_cons]
    exact ⟨⟨_, first⟩, ⟨_, second⟩, ⟨_, third⟩, by simp⟩
  have safe : ∀ path ∈ corpusFiles alikeFiles, Safe twoAlike (Path.ofText "o") path := by
    intro path member
    have inside := member
    rw [all] at inside
    exact safe_of_fresh proper fresh listed inside (named path inside) (loadable path member)
  have suits : ∀ path ∈ corpusFiles alikeFiles, Suits (Path.ofText "o") path := by
    have placed : ∀ path ∈ alikeFiles, (IsName path.parent.name ∧ IsName path.name) ∧
        (path.parent.name ≠ ".." ∧ path.parent.name.utf8ByteSize ≤ Tree.nameLimit) ∧
        (path.name ≠ ".." ∧ path.name.utf8ByteSize ≤ Tree.nameLimit) ∧
        (keptPath (Path.ofText "o") path).hasNull = false ∧
        (keptPath (Path.ofText "o") path).text.utf8ByteSize ≤ Tree.pathLimit := by
      decide +kernel
    intro path member
    rw [all] at member
    obtain ⟨⟨parent, name⟩, ⟨up, short⟩, ⟨down, brief⟩, clean, fits⟩ := placed path member
    exact ⟨⟨parent, name⟩, ⟨up, short⟩, ⟨down, brief⟩, Tree.usable_iff.mpr ⟨clean, fits⟩⟩
  have pool : poolFault? 1 (binariesOf (.ok .cisco) (corpusFiles alikeFiles)).length = none := by
    decide +kernel
  obtain ⟨later, done, survivors, survived⟩ :=
    dedupDirectory_roomy (w := ⟨twoAlike, []⟩) listed fresh.roomy safe loadable suits pool
  rw [all, groupsInto_twoAlike] at done survived
  have clear : later.tree.Fresh (Path.ofText "p") := by
    rw [tree_of_twoAlike survived]
    exact Tree.fresh_of_entries rfl (by decide +kernel) (by decide +kernel)
  exact ⟨proper, fresh, listed, later, done, clear,
    dedupDirectory_again proper fresh listed loadable (by decide +kernel) done clear
      (by decide +kernel) (by decide +kernel)⟩

end FlowCorpus.Dedup
