import FlowCorpus.Proofs.Dedup.Again

/-!
# A group in one pass

A group is loaded file by file, the places of repeated graphs are noted, and these places are left
out of the graphs and of their files afterwards, the last one first. It comes to the same as going
through the files once and keeping those that load with a graph that no earlier file holds.
-/

set_option autoImplicit false

namespace FlowCorpus.Dedup

open FlowCorpus.Batch FlowCorpus.Json FlowCorpus.Storage

def freshFiles (tree : Tree) (paths : List Path) : List Path :=
  (paths.zipIdx.filter fun (path, place) => (digestIn? tree path).isSome &&
    !(paths.take place).any fun earlier => digestIn? tree earlier == digestIn? tree path).map
      Prod.fst

def writeSurvivors (directory : Option Path) (survivors : List (Value × Path)) : Job (List Path) :=
  match directory with
  | none => pure []
  | some d => survivors.mapM (writeSurvivor d)

variable {tree : Tree} {paths : List Path}

theorem digestAt_of_digestIn? {path : Path} {digest : String}
    (held : digestIn? tree path = some digest) : digestAt tree path = digest := by
  cases loading : loadGraph tree path with
  | ok fields =>
      rw [digestIn?_of_ok loading] at held
      rw [digestAt, graphAt_of_ok loading]
      exact Option.some.inj held
  | error fault =>
      rw [digestIn?_of_error loading] at held
      cases held

theorem freshFiles_eq (tree : Tree) (paths : List Path) :
    freshFiles tree paths = keptFiles tree (loadedFiles tree paths) := by
  have filtered : freshFiles tree paths =
      (unrepeated (fun a b => digestIn? tree a == digestIn? tree b) paths).filter fun path =>
        (digestIn? tree path).isSome := by
    unfold freshFiles unrepeated
    rw [List.filter_map, List.filter_filter]
    rfl
  rw [filtered, keptFiles, firsts_eq_unrepeated, loadedFiles]
  refine (unrepeated_filter fun a _ b _ held => ?_).symm
  obtain ⟨digest, here⟩ := Option.isSome_iff_exists.mp held
  cases earlier : digestIn? tree a with
  | none => simp [here]
  | some other =>
      rw [here, digestAt_of_digestIn? here, digestAt_of_digestIn? earlier]
      simp

theorem loads_freshFiles (tree : Tree) (paths : List Path) :
    List.Forall₂ (Loads tree) ((freshFiles tree paths).map (graphAt tree))
      (freshFiles tree paths) := by
  rw [List.forall₂_map_left_iff, List.forall₂_same]
  intro path member
  rw [freshFiles_eq] at member
  have held := (List.mem_filter.mp ((firsts_sublist _ _).subset member)).2
  cases loading : loadGraph tree path with
  | ok fields => exact ⟨fields, graphAt_of_ok loading, loading⟩
  | error fault =>
      rw [digestIn?_of_error loading] at held
      cases held

/-- Whether its files load or not, a group keeps those that load with a digest of their own, in
order, each with its graph: the places of repeated graphs are there when their turn comes. The files
that do not load are listed in order, and no others are. -/
theorem dedupGraphs_onePass {w : Workspace} (directory : Option Path) (binary : String)
    (outcomes : ∀ p ∈ paths, ∀ fault, loadGraph w.tree p = .error fault → fault.kind = .load) :
    let kept := freshFiles w.tree paths
    let failed := unloadedFiles w.tree paths
    let original := (loadedFiles w.tree paths).length
    (∃ loaded : LoadedGraphs,
      (paths.foldlM loadNext {}).on w = (.ok loaded, reportingUnloaded w failed) ∧
        let places := repeats (loaded.graphs.map graphDigest)
        erasePlaces? places loaded.graphs = some (kept.map (graphAt w.tree)) ∧
          erasePlaces? places loaded.paths = some kept) ∧
    List.Forall₂ (Loads w.tree) (kept.map (graphAt w.tree)) kept ∧
    (dedupGraphs directory binary paths).on w =
      (do
        let written ← writeSurvivors directory (kept.map fun path => (graphAt w.tree path, path))
        Job.report (.groupDeduplicated binary original kept.length)
        return ({ binary, kept, statistics := ⟨original, kept.length⟩, failed, written } :
          GraphGroup)).on (reportingUnloaded w failed) := by
  intro kept failed original
  have same : kept = keptFiles w.tree (loadedFiles w.tree paths) := freshFiles_eq w.tree paths
  have loading := on_loadFiles outcomes
  refine ⟨⟨_, loading, ?_⟩, loads_freshFiles w.tree paths, ?_⟩
  · rw [same]
    exact erasePlaces?_graphs w.tree (loadedFiles w.tree paths)
  · unfold dedupGraphs
    rw [Job.on_bind_of_ok loading, dedup_loadAll, ← same]
    dsimp only
    rw [same, zip_keptGraphs, List.length_map, List.length_map]
    cases directory <;> rfl

/-! ## Four files -/

/-- The files of two graphs, one of them held twice, and a path at which there is no file. -/
def withMissing : List Path :=
  [⟨"", ["g", "arm_ls_gcc", "a.json"]⟩, ⟨"", ["g", "arm_ls_gcc", "aa.json"]⟩,
    ⟨"", ["g", "arm_ls_gcc", "b.json"]⟩, ⟨"", ["g", "x86_ls_gcc", "c.json"]⟩]

theorem loadGraph_missing :
    loadGraph twoAlike ⟨"", ["g", "arm_ls_gcc", "aa.json"]⟩ =
      .error (.unreadableGraph "g/arm_ls_gcc/aa.json") := by
  have read : twoAlike.readText ⟨"", ["g", "arm_ls_gcc", "aa.json"]⟩ =
      .error (.store .missing "g/arm_ls_gcc/aa.json") := by decide +kernel
  unfold loadGraph
  rw [read]
  rfl

theorem filesOf_withMissing :
    freshFiles twoAlike withMissing =
        [⟨"", ["g", "arm_ls_gcc", "a.json"]⟩, ⟨"", ["g", "x86_ls_gcc", "c.json"]⟩] ∧
      unloadedFiles twoAlike withMissing = [⟨"", ["g", "arm_ls_gcc", "aa.json"]⟩] ∧
      (loadedFiles twoAlike withMissing).length = 3 := by
  obtain ⟨first, second, third⟩ := loadGraph_twoAlike
  have a := digestIn?_of_ok first
  have b := digestIn?_of_ok second
  have c := digestIn?_of_ok third
  have missing := digestIn?_of_error loadGraph_missing
  refine ⟨?_, ?_, ?_⟩
  · simp [freshFiles, withMissing, List.zipIdx, a, b, c, missing, digests_differ]
  · simp [unloadedFiles, withMissing, a, b, c, missing]
  · simp [loadedFiles, withMissing, a, b, c, missing]

theorem dedupGraphs_onePass_withMissing :
    (∀ p ∈ withMissing, ∀ fault, loadGraph twoAlike p = .error fault → fault.kind = .load) ∧
      ((dedupGraphs none "ls" withMissing).on ⟨twoAlike, []⟩).1 = .ok {
        binary := "ls"
        kept := [⟨"", ["g", "arm_ls_gcc", "a.json"]⟩, ⟨"", ["g", "x86_ls_gcc", "c.json"]⟩]
        statistics := ⟨3, 2⟩
        failed := [⟨"", ["g", "arm_ls_gcc", "aa.json"]⟩] } := by
  have outcomes : ∀ p ∈ withMissing, ∀ fault,
      loadGraph twoAlike p = .error fault → fault.kind = .load := by
    obtain ⟨first, second, third⟩ := loadGraph_twoAlike
    simp only [withMissing, List.forall_mem_cons]
    refine ⟨?_, ?_, ?_, ?_, by simp⟩
    · intro fault failed
      cases first.symm.trans failed
    · intro fault failed
      cases loadGraph_missing.symm.trans failed
      rfl
    · intro fault failed
      cases second.symm.trans failed
    · intro fault failed
      cases third.symm.trans failed
  obtain ⟨kept, failed, loaded⟩ := filesOf_withMissing
  obtain ⟨-, -, ran⟩ := dedupGraphs_onePass (w := ⟨twoAlike, []⟩) none "ls" outcomes
  refine ⟨outcomes, ?_⟩
  rw [ran]
  dsimp only
  rw [kept, failed, loaded]
  rfl

end FlowCorpus.Dedup
