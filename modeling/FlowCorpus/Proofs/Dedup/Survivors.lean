import Mathlib.Data.List.Forall2
import FlowCorpus.Dedup.GraphCorpus
import FlowCorpus.Proofs.Batch.ForkJoin
import FlowCorpus.Proofs.Json.Ascii
import FlowCorpus.Proofs.Json.RoundTrip
import FlowCorpus.Proofs.Storage.Written

/-!
# Graphs that survive deduplication

A group loads graphs together with their files and drops both together, so that every graph that is
left belongs to its file. What is left is written graph by graph, and a file that is not written
again holds its graph.
-/

set_option autoImplicit false

namespace FlowCorpus.Dedup

open FlowCorpus.Batch FlowCorpus.Json FlowCorpus.Storage

/-! ## Graphs in files -/

theorem loadGraph_ok_iff {tree : Tree} {path : Path} {fields : Fields} :
    loadGraph tree path = .ok fields ↔
      ∃ s, tree.readText path = .ok s ∧ decode s = .ok (.obj fields) ∧
        graphFields? (.obj fields) = some fields := by
  have shape {value : Value} (found : graphFields? value = some fields) : value = .obj fields := by
    unfold graphFields? at found
    split at found
    · split at found <;> cases found
      rfl
    · cases found
  unfold loadGraph
  constructor
  · intro success
    split at success
    · cases success
    · rename_i s read
      split at success
      · cases success
      · rename_i value decoded
        split at success
        · rename_i loaded found
          cases success
          obtain rfl := shape found
          exact ⟨s, read, decoded, found⟩
        · cases success
  · rintro ⟨s, read, decoded, found⟩
    simp only [read, decoded, found]

theorem loadGraph_congr {tree later : Tree} {path : Path}
    (same : later.readText path = tree.readText path) :
    loadGraph later path = loadGraph tree path := by
  unfold loadGraph
  rw [same]

/-- A graph that was loaded is loaded again from a file that it was written to. -/
theorem loadGraph_of_holds {tree later : Tree} {path target : Path} {fields : Fields}
    (loaded : loadGraph tree path = .ok fields)
    (holds : later.Holds target (Value.obj fields).render) :
    loadGraph later target = .ok fields := by
  obtain ⟨s, _, decoded, found⟩ := loadGraph_ok_iff.mp loaded
  exact loadGraph_ok_iff.mpr
    ⟨_, holds.readText_plain (noReturn_render _), decode_render decoded, found⟩

/-! ## Graphs with their files -/

def Loads (tree : Tree) (graph : Value) (path : Path) : Prop :=
  ∃ fields, graph = .obj fields ∧ loadGraph tree path = .ok fields

structure LoadedGraphs.Sound (tree : Tree) (files : List Path) (loaded : LoadedGraphs) : Prop where
  loads : List.Forall₂ (Loads tree) loaded.graphs loaded.paths
  listed : loaded.paths ⊆ files

theorem loadNext_ok {files : List Path} {loaded next : LoadedGraphs} {path : Path}
    {w later : Workspace} (sound : loaded.Sound w.tree files) (member : path ∈ files)
    (success : (loadNext loaded path).on w = (.ok next, later)) :
    next.Sound w.tree files ∧ later.tree = w.tree := by
  obtain ⟨outcome, middle, attempted, further⟩ := Job.on_bind_ok success
  rw [Job.on_attempt, Job.on_ask] at attempted
  obtain ⟨returned, rfl⟩ := Prod.mk.inj attempted
  obtain rfl := Except.ok.inj returned
  split at further
  · rename_i fields found
    cases further
    refine ⟨⟨List.rel_append sound.loads (.cons ⟨fields, rfl, found⟩ .nil), ?_⟩, rfl⟩
    exact List.append_subset.mpr ⟨sound.listed, by simpa using member⟩
  · split at further
    · obtain ⟨_, last, reported, built⟩ := Job.on_bind_ok further
      cases reported
      cases built
      exact ⟨⟨sound.loads, sound.listed⟩, rfl⟩
    · cases further

theorem on_loadNext {loaded : LoadedGraphs} {path : Path} {fields : Fields} {w : Workspace}
    (found : loadGraph w.tree path = .ok fields) :
    (loadNext loaded path).on w = (.ok { loaded with
      graphs := loaded.graphs ++ [.obj fields], paths := loaded.paths ++ [path] }, w) := by
  unfold loadNext
  rw [Job.on_bind_of_ok (Job.on_attempt _ w), Job.on_ask, found]
  rfl

theorem loadedGraphs_sound {files : List Path} {loaded : LoadedGraphs} {w later : Workspace}
    (success : (files.foldlM loadNext {}).on w = (.ok loaded, later)) :
    loaded.Sound w.tree files ∧ later.tree = w.tree := by
  refine Job.foldlM_ok (fun loaded reached => loaded.Sound w.tree files ∧ reached.tree = w.tree)
    ?_ ⟨⟨.nil, List.nil_subset _⟩, rfl⟩ success
  rintro path member state start next reached ⟨sound, same⟩ step
  rw [← same] at sound ⊢
  exact loadNext_ok sound member step

theorem forall₂_eraseIdx {α β : Type} {relation : α → β → Prop} {items : List α}
    {others : List β} (related : List.Forall₂ relation items others) (place : Nat) :
    List.Forall₂ relation (items.eraseIdx place) (others.eraseIdx place) := by
  induction related generalizing place with
  | nil => exact .nil
  | cons first rest ih =>
      cases place with
      | zero => exact rest
      | succ place => exact .cons first (ih place)

/-- Dropping the same places on both sides leaves every graph with its own file. -/
theorem forall₂_withoutPlaces {α β : Type} {relation : α → β → Prop} {items : List α}
    {others : List β} (related : List.Forall₂ relation items others) (places : List Nat) :
    List.Forall₂ relation (withoutPlaces places items) (withoutPlaces places others) := by
  induction places with
  | nil => exact related
  | cons place rest ih => exact forall₂_eraseIdx ih place

theorem withoutPlaces_subset {α : Type} (places : List Nat) (items : List α) :
    withoutPlaces places items ⊆ items := by
  induction places with
  | nil => exact List.Subset.refl items
  | cons place rest ih => exact fun _ member => ih (List.mem_of_mem_eraseIdx member)

theorem LoadedGraphs.Sound.dedup {tree : Tree} {files : List Path} {loaded : LoadedGraphs}
    (sound : loaded.Sound tree files) : loaded.dedup.Sound tree files where
  loads := forall₂_withoutPlaces sound.loads _
  listed := fun _ member => sound.listed (withoutPlaces_subset _ _ member)

/-! ## Writing what is left -/

def writeSurvivor (directory : Path) (survivor : Value × Path) : Job Path :=
  writeKept directory survivor.1 survivor.2

def target (tree : Tree) (directory : Path) (survivor : Value × Path) : Location :=
  tree.destination (keptPath directory survivor.2)

variable {directory : Path}

theorem writeSurvivor_ok {survivor : Value × Path} {written : Path} {w later : Workspace}
    (success : (writeSurvivor directory survivor).on w = (.ok written, later)) :
    written = keptPath directory survivor.2 ∧ later.tree.Holds written survivor.1.render ∧
      Tree.Grows (· = target w.tree directory survivor) w.tree later.tree := by
  obtain ⟨_, middle, done, built⟩ := Job.on_bind_ok success
  obtain ⟨holds, grows⟩ := holds_of_writeBelow done
  cases built
  exact ⟨rfl, holds, grows⟩

theorem written_of_ran {tree later : Tree} {survivors : List (Value × Path)} {written : List Path}
    (ran : Ran (writeSurvivor directory) tree survivors written later) :
    written = survivors.map fun survivor => keptPath directory survivor.2 := by
  induction ran with
  | nil => rfl
  | cons first _ ih => rw [(writeSurvivor_ok first).1, ih, List.map_cons]

theorem target_of_grows {changed : Location → Prop} {tree later : Tree}
    (grows : Tree.Grows changed tree later) : target later directory = target tree directory :=
  funext fun _ => grows.destination _

/-- Only the files that survivors go to change. -/
theorem grows_of_ran {tree later : Tree} {survivors : List (Value × Path)} {written : List Path}
    (ran : Ran (writeSurvivor directory) tree survivors written later) :
    Tree.Grows (· ∈ survivors.map (target tree directory)) tree later := by
  induction ran with
  | nil => exact .refl _ _
  | cons first _ ih =>
      obtain ⟨-, -, grows⟩ := writeSurvivor_ok first
      rw [target_of_grows grows] at ih
      refine (grows.mono fun location same => ?_).trans (ih.mono fun location member => ?_)
      · exact same ▸ List.mem_cons_self
      · exact List.mem_cons_of_mem _ member

/-- A file that no later survivor goes to holds what was written. -/
theorem holds_of_ran {tree later : Tree} {before after : List (Value × Path)}
    {survivor : Value × Path} {written : List Path}
    (ran : Ran (writeSurvivor directory) tree (before ++ survivor :: after) written later)
    (last : target tree directory survivor ∉ after.map (target tree directory)) :
    later.Holds (keptPath directory survivor.2) survivor.1.render := by
  induction before generalizing tree written with
  | nil =>
      cases ran with
      | cons first others =>
          obtain ⟨rfl, holds, grows⟩ := writeSurvivor_ok first
          refine holds.grows (grows_of_ran others) ?_
          rwa [grows.destination, target_of_grows grows]
  | cons earlier rest ih =>
      cases ran with
      | cons first others =>
          obtain ⟨-, -, grows⟩ := writeSurvivor_ok first
          refine ih others ?_
          rwa [target_of_grows grows]

/-! ## One group -/

theorem dedupGraphs_ok {binary : String} {files : List Path} {group : GraphGroup}
    {w later : Workspace}
    (success : (dedupGraphs (some directory) binary files).on w = (.ok group, later)) :
    ∃ graphs, List.Forall₂ (Loads w.tree) graphs group.kept ∧ group.kept ⊆ files ∧
      group.statistics.unique = group.kept.length ∧
      Ran (writeSurvivor directory) w.tree (graphs.zip group.kept) group.written later.tree := by
  obtain ⟨loaded, middle, loading, further⟩ := Job.on_bind_ok success
  obtain ⟨sound, same⟩ := loadedGraphs_sound loading
  obtain ⟨written, last, writing, ended⟩ := Job.on_bind_ok further
  obtain ⟨_, _, reported, built⟩ := Job.on_bind_ok ended
  cases reported
  cases built
  have kept := sound.dedup
  have ran := ran_of_mapM writing
  rw [same] at ran
  exact ⟨loaded.dedup.graphs, kept.loads, kept.listed, congrArg Int.ofNat kept.loads.length_eq, ran⟩

end FlowCorpus.Dedup
