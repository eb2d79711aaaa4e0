import FlowCorpus.Proofs.Dedup.Firsts
import FlowCorpus.Proofs.Dedup.Survivors

/-!
# Groups of graph files

The files of a corpus come in groups: one for every binary that a directory names, with all the
files whose directories name it, in their order. Of a group whose files all hold graphs the first
file of every digest is kept.
-/

set_option autoImplicit false

namespace FlowCorpus.Dedup

open FlowCorpus.Batch FlowCorpus.Json FlowCorpus.Storage

/-! ## Files by binary -/

section

variable {format : Except Fault PathFormat}

def binaryOf? (format : Except Fault PathFormat) (path : Path) : Option String :=
  (binaryName format path).toOption

def filesNaming (format : Except Fault PathFormat) (binary : String) (files : List Path) :
    List Path :=
  files.filter fun path => binaryOf? format path == some binary

/-- The binaries that the directories of files name, in the order of the first files. -/
def binariesOf (format : Except Fault PathFormat) (files : List Path) : List String :=
  firsts id (files.filterMap (binaryOf? format))

def groupsOf (format : Except Fault PathFormat) (files : List Path) : List (String × List Path) :=
  (binariesOf format files).map fun binary => (binary, filesNaming format binary files)

theorem mem_filesNaming {binary : String} {files : List Path} {path : Path} :
    path ∈ filesNaming format binary files ↔
      path ∈ files ∧ binaryOf? format path = some binary := by
  rw [filesNaming, List.mem_filter, beq_iff_eq]

theorem nodup_binariesOf (format : Except Fault PathFormat) (files : List Path) :
    (binariesOf format files).Nodup :=
  nodup_firsts_id _

theorem mem_binariesOf {binary : String} {files : List Path} :
    binary ∈ binariesOf format files ↔ ∃ path ∈ files, binaryOf? format path = some binary := by
  rw [binariesOf, mem_firsts_id, List.mem_filterMap]

theorem filesNaming_ne_nil {binary : String} {files : List Path}
    (member : binary ∈ binariesOf format files) : filesNaming format binary files ≠ [] := by
  obtain ⟨path, there, named⟩ := mem_binariesOf.mp member
  exact List.ne_nil_of_mem (mem_filesNaming.mpr ⟨there, named⟩)

theorem addTo_map {binary : String} {path : Path} {held : String → List Path}
    {binaries : List String} (distinct : binaries.Nodup) :
    GraphCorpus.addTo binary path (binaries.map fun b => (b, held b)) =
      if binary ∈ binaries then
        binaries.map fun b => (b, if b = binary then held b ++ [path] else held b)
      else (binaries.map fun b => (b, held b)) ++ [(binary, [path])] := by
  induction binaries with
  | nil => rfl
  | cons first rest ih =>
      obtain ⟨fresh, others⟩ := List.nodup_cons.mp distinct
      rw [List.map_cons, GraphCorpus.addTo]
      by_cases same : first = binary
      · subst same
        rw [if_pos rfl, if_pos List.mem_cons_self, List.map_cons, if_pos rfl]
        refine congrArg _ (List.map_congr_left fun b member => ?_)
        rw [if_neg]
        rintro rfl
        exact fresh member
      · rw [if_neg same, ih others]
        by_cases member : binary ∈ rest
        · rw [if_pos member, if_pos (List.mem_cons_of_mem _ member), List.map_cons, if_neg same]
        · have absent : binary ∉ first :: rest := by simp [Ne.symm same, member]
          rw [if_neg member, if_neg absent, List.cons_append]

theorem groupsOf_concat_some {binary : String} {files : List Path} {path : Path}
    (named : binaryOf? format path = some binary) :
    groupsOf format (files ++ [path]) =
      GraphCorpus.addTo binary path (groupsOf format files) := by
  have naming (b : String) : filesNaming format b (files ++ [path]) =
      if b = binary then filesNaming format b files ++ [path]
      else filesNaming format b files := by
    unfold filesNaming
    rw [List.filter_append, List.filter_singleton, named]
    by_cases same : b = binary
    · simp [same]
    · have other : (binary == b) = false := by simpa using Ne.symm same
      simp [same, other]
  have binaries : binariesOf format (files ++ [path]) =
      binariesOf format files ++
        if binary ∈ binariesOf format files then [] else [binary] := by
    have known : (files.filterMap (binaryOf? format)).any (fun b => id b == id binary) = true ↔
        binary ∈ binariesOf format files := by
      rw [mem_binariesOf, List.any_eq_true]
      simp only [List.mem_filterMap, id_eq, beq_iff_eq, exists_eq_right]
    unfold binariesOf at known ⊢
    rw [List.filterMap_append, List.filterMap_cons_some named, List.filterMap_nil, firsts_concat]
    simp only [known]
  unfold groupsOf
  rw [addTo_map (nodup_binariesOf format files), binaries]
  by_cases member : binary ∈ binariesOf format files
  · rw [if_pos member, if_pos member, List.append_nil]
    exact List.map_congr_left fun b _ => by rw [naming]
  · rw [if_neg member, if_neg member, List.map_append]
    have others : (binariesOf format files).map
        (fun b => (b, filesNaming format b (files ++ [path]))) =
          (binariesOf format files).map fun b => (b, filesNaming format b files) := by
      refine List.map_congr_left fun b there => ?_
      rw [naming, if_neg]
      rintro rfl
      exact member there
    -- A binary that is not known yet has no files, so that its group starts with this one.
    have none : filesNaming format binary files = [] := by
      refine List.eq_nil_iff_forall_not_mem.mpr fun p there => ?_
      obtain ⟨inside, same⟩ := mem_filesNaming.mp there
      exact member (mem_binariesOf.mpr ⟨p, inside, same⟩)
    rw [others, List.map_singleton, naming, if_pos rfl, none, List.nil_append]

theorem groupsOf_concat_none {files : List Path} {path : Path}
    (unnamed : binaryOf? format path = none) :
    groupsOf format (files ++ [path]) = groupsOf format files := by
  unfold groupsOf binariesOf filesNaming
  rw [List.filterMap_append, List.filterMap_cons_none unnamed, List.filterMap_nil, List.append_nil]
  refine List.map_congr_left fun b _ => ?_
  rw [List.filter_append, List.filter_singleton, unnamed]
  simp

def corpusFiles (files : List Path) : List Path :=
  files.filter fun path => path.name.endsWith GraphCorpus.ending

def unnamedOf (format : Except Fault PathFormat) (files : List Path) : List Path :=
  files.filter fun path => (binaryOf? format path).isNone

/-- The corpus of files, with the groups of those that name a binary and the other ones. -/
def corpusOf (format : Except Fault PathFormat) (files : List Path) : GraphCorpus :=
  ⟨groupsOf format files, unnamedOf format files⟩

theorem on_add (format : Except Fault PathFormat) (files : List Path) (path : Path)
    (w : Workspace) :
    ∃ later, ((corpusOf format files).add format path).on w =
      (.ok (corpusOf format (files ++ [path])), later) ∧ later.tree = w.tree := by
  have unnamed : unnamedOf format (files ++ [path]) =
      unnamedOf format files ++ [path].filter fun path => (binaryOf? format path).isNone :=
    List.filter_append _ _
  unfold GraphCorpus.add
  cases named : binaryName format path with
  | ok binary =>
      have found : binaryOf? format path = some binary := by
        rw [binaryOf?, named]
        rfl
      rw [List.filter_cons_of_neg (by simp [found]), List.filter_nil, List.append_nil] at unnamed
      rw [corpusOf, corpusOf, groupsOf_concat_some found, unnamed]
      exact ⟨_, rfl, rfl⟩
  | error fault =>
      have missed : binaryOf? format path = none := by
        rw [binaryOf?, named]
        rfl
      rw [List.filter_cons_of_pos (by simp [missed]), List.filter_nil] at unnamed
      rw [corpusOf, corpusOf, groupsOf_concat_none missed, unnamed]
      exact ⟨_, rfl, rfl⟩

/-- A corpus groups the files below a directory. -/
theorem on_ofDirectory (format : Except Fault PathFormat) {directory : Path} {files : List Path}
    {w : Workspace} (listed : w.tree.filesBelow directory true = .ok files) :
    ∃ later, (GraphCorpus.ofDirectory format directory).on w =
      (.ok (corpusOf format (corpusFiles files)), later) ∧ later.tree = w.tree := by
  have fold (paths : List Path) : ∃ later,
      (paths.foldlM (GraphCorpus.add format) {}).on w = (.ok (corpusOf format paths), later) ∧
      later.tree = w.tree := by
    -- A file joins its group as the last one, so the induction is from the end of the files.
    induction paths using List.reverseRecOn with
    | nil => exact ⟨w, rfl, rfl⟩
    | append_singleton rest path ih =>
        obtain ⟨middle, ran, same⟩ := ih
        obtain ⟨later, added, left⟩ := on_add format rest path middle
        refine ⟨later, ?_, left.trans same⟩
        rw [List.foldlM_append, Job.on_bind_of_ok ran, List.foldlM_cons, Job.on_bind_of_ok added]
        rfl
  obtain ⟨later, ran, same⟩ := fold (corpusFiles files)
  refine ⟨later, ?_, same⟩
  unfold GraphCorpus.ofDirectory
  rw [Job.on_bind_of_ok ((Job.on_ask _ w).trans (by rw [listed]))]
  exact ran

end

/-! ## The first file of every digest -/

/-- The items without those at some places, unless a place has no item when its turn comes. -/
def erasePlaces? {α : Type} (places : List Nat) (items : List α) : Option (List α) :=
  places.foldrM
    (fun place items => if place < items.length then some (items.eraseIdx place) else none) items

theorem erasePlaces?_cons {α : Type} {place : Nat} {places : List Nat} {items left : List α}
    (others : erasePlaces? places items = some left) (inside : place < left.length) :
    erasePlaces? (place :: places) items = some (left.eraseIdx place) := by
  unfold erasePlaces? at others ⊢
  rw [List.foldrM_cons, others]
  exact if_pos inside

theorem withoutPlaces_of_erasePlaces? {α : Type} {places : List Nat} {items left : List α}
    (erased : erasePlaces? places items = some left) : withoutPlaces places items = left := by
  induction places generalizing left with
  | nil => exact Option.some.inj erased
  | cons place rest ih =>
      unfold erasePlaces? at erased
      rw [List.foldrM_cons] at erased
      obtain ⟨middle, others, last⟩ := Option.bind_eq_some_iff.mp erased
      split at last
      · cases last
        unfold withoutPlaces at ih ⊢
        rw [List.foldr_cons, ih others]
      · cases last

/-- The places of repeated keys can be left out from the last one on, and the first item of every
key is left. -/
theorem erasePlaces?_repeats {α : Type} (key : α → String) (items : List α) :
    erasePlaces? (repeats (items.map key)) items = some (firsts key items) := by
  -- Places count from the start of all items, so those before the rest are carried along.
  have run (seen : List String) (before : List α) :
      erasePlaces? (repeatsFrom before.length seen (items.map key)) (before ++ items) =
        some (before ++ firstsAfter key seen items) := by
    induction items generalizing seen before with
    | nil => rfl
    | cons item rest ih =>
        have further (seen : List String) :
            erasePlaces? (repeatsFrom (before.length + 1) seen (rest.map key))
              (before ++ item :: rest) = some (before ++ item :: firstsAfter key seen rest) := by
          have step := ih seen (before ++ [item])
          rwa [List.length_append, List.length_singleton, List.append_assoc, List.append_assoc,
            List.singleton_append, List.singleton_append] at step
        rw [List.map_cons, repeatsFrom, firstsAfter]
        by_cases known : seen.contains (key item) = true
        · rw [if_pos known, if_pos known, erasePlaces?_cons (further seen) (by simp),
            List.eraseIdx_append_of_length_le (Nat.le_refl _), Nat.sub_self,
            List.eraseIdx_cons_zero]
        · rw [if_neg known, if_neg known, further]
  exact run [] []

def graphAt (tree : Tree) (path : Path) : Value :=
  match loadGraph tree path with
  | .ok fields => .obj fields
  | .error _ => .null

def digestAt (tree : Tree) (path : Path) : String :=
  graphDigest (graphAt tree path)

def Loadable (tree : Tree) (path : Path) : Prop :=
  ∃ fields, loadGraph tree path = .ok fields

theorem graphAt_of_ok {tree : Tree} {path : Path} {fields : Fields}
    (loaded : loadGraph tree path = .ok fields) : graphAt tree path = .obj fields := by
  unfold graphAt
  rw [loaded]

/-- The digest of the graph in a file, unless the file does not load. -/
def digestIn? (tree : Tree) (path : Path) : Option String :=
  match loadGraph tree path with
  | .ok fields => some (graphDigest (.obj fields))
  | .error _ => none

def loadedFiles (tree : Tree) (paths : List Path) : List Path :=
  paths.filter fun path => (digestIn? tree path).isSome

def unloadedFiles (tree : Tree) (paths : List Path) : List Path :=
  paths.filter fun path => (digestIn? tree path).isNone

theorem digestIn?_of_ok {tree : Tree} {path : Path} {fields : Fields}
    (loaded : loadGraph tree path = .ok fields) :
    digestIn? tree path = some (graphDigest (.obj fields)) := by
  unfold digestIn?
  rw [loaded]

theorem digestIn?_of_error {tree : Tree} {path : Path} {fault : Fault}
    (failed : loadGraph tree path = .error fault) : digestIn? tree path = none := by
  unfold digestIn?
  rw [failed]

theorem loadedFiles_concat_of_ok {tree : Tree} {path : Path} {fields : Fields}
    (loaded : loadGraph tree path = .ok fields) (paths : List Path) :
    loadedFiles tree (paths ++ [path]) = loadedFiles tree paths ++ [path] ∧
      unloadedFiles tree (paths ++ [path]) = unloadedFiles tree paths := by
  simp [loadedFiles, unloadedFiles, digestIn?_of_ok loaded]

theorem loadedFiles_concat_of_error {tree : Tree} {path : Path} {fault : Fault}
    (failed : loadGraph tree path = .error fault) (paths : List Path) :
    loadedFiles tree (paths ++ [path]) = loadedFiles tree paths ∧
      unloadedFiles tree (paths ++ [path]) = unloadedFiles tree paths ++ [path] := by
  simp [loadedFiles, unloadedFiles, digestIn?_of_error failed]

theorem loadedFiles_eq_self {tree : Tree} {paths : List Path}
    (loadable : ∀ p ∈ paths, Loadable tree p) :
    loadedFiles tree paths = paths ∧ unloadedFiles tree paths = [] := by
  have each : ∀ path ∈ paths, (digestIn? tree path).isSome := by
    intro path member
    obtain ⟨fields, loaded⟩ := loadable path member
    rw [digestIn?_of_ok loaded]
    rfl
  constructor
  · exact List.filter_eq_self.mpr each
  · apply List.filter_eq_nil_iff.mpr
    intro path member
    simp [Option.isSome_iff_ne_none.mp (each path member)]

def reportingUnloaded (w : Workspace) (failed : List Path) : Workspace :=
  { w with journal := w.journal ++ failed.map fun path => .fileLoadFailed path.text }

theorem reportingUnloaded_concat (w : Workspace) (failed : List Path) (path : Path) :
    reportingUnloaded w (failed ++ [path]) =
      reportingUnloaded (reportingUnloaded w failed) [path] := by
  simp [reportingUnloaded]

theorem on_loadNext_failed {loaded : LoadedGraphs} {path : Path} {fault : Fault} {w : Workspace}
    (failed : loadGraph w.tree path = .error fault) (unreadable : fault.kind = .load) :
    (loadNext loaded path).on w =
      (.ok { loaded with failed := loaded.failed ++ [path] }, reportingUnloaded w [path]) := by
  unfold loadNext
  rw [Job.on_bind_of_ok (Job.on_attempt _ w), Job.on_ask, failed]
  dsimp only
  rw [if_pos unreadable]
  rfl

/-- Files that load or are noted as unreadable are gone through to the end: the graphs that load
stand in the order of their files. -/
theorem on_loadFiles {paths : List Path} {w : Workspace}
    (outcomes : ∀ p ∈ paths, ∀ fault, loadGraph w.tree p = .error fault → fault.kind = .load) :
    (paths.foldlM loadNext {}).on w =
      (.ok ⟨(loadedFiles w.tree paths).map (graphAt w.tree), loadedFiles w.tree paths,
          unloadedFiles w.tree paths⟩,
        reportingUnloaded w (unloadedFiles w.tree paths)) := by
  -- Every file joins what was loaded or what was not at the end, so the induction is from there.
  induction paths using List.reverseRecOn with
  | nil => simp [reportingUnloaded, loadedFiles, unloadedFiles]; rfl
  | append_singleton rest path ih =>
      rw [List.forall_mem_append, List.forall_mem_singleton] at outcomes
      obtain ⟨others, outcome⟩ := outcomes
      rw [List.foldlM_append, Job.on_bind_of_ok (ih others), List.foldlM_cons]
      cases loading : loadGraph w.tree path with
      | ok fields =>
          obtain ⟨taken, left⟩ := loadedFiles_concat_of_ok loading rest
          have loaded : loadGraph (reportingUnloaded w (unloadedFiles w.tree rest)).tree path =
              .ok fields := loading
          rw [Job.on_bind_of_ok (on_loadNext loaded), taken, left, List.map_append,
            List.map_singleton, graphAt_of_ok loading]
          rfl
      | error fault =>
          obtain ⟨taken, left⟩ := loadedFiles_concat_of_error loading rest
          have failed : loadGraph (reportingUnloaded w (unloadedFiles w.tree rest)).tree path =
              .error fault := loading
          rw [Job.on_bind_of_ok (on_loadNext_failed failed (outcome fault loading)), taken, left,
            reportingUnloaded_concat]
          rfl

theorem on_loadAll {paths : List Path} {w : Workspace} (loadable : ∀ p ∈ paths, Loadable w.tree p) :
    (paths.foldlM loadNext {}).on w =
      (.ok { graphs := paths.map (graphAt w.tree), paths }, w) := by
  have outcomes : ∀ p ∈ paths, ∀ fault, loadGraph w.tree p = .error fault → fault.kind = .load := by
    intro path member fault failed
    obtain ⟨fields, loaded⟩ := loadable path member
    cases loaded.symm.trans failed
  obtain ⟨all, none⟩ := loadedFiles_eq_self loadable
  rw [on_loadFiles outcomes, all, none]
  simp [reportingUnloaded]

def keptFiles (tree : Tree) (paths : List Path) : List Path :=
  firsts (digestAt tree) paths

def keptGraphs (tree : Tree) (paths : List Path) : List (Value × Path) :=
  (keptFiles tree paths).map fun path => (graphAt tree path, path)

/-- The places of repeated digests can be left out of the graphs and of their files, and every graph
that is left has its own file. -/
theorem erasePlaces?_graphs (tree : Tree) (paths : List Path) :
    let graphs := paths.map (graphAt tree)
    let places := repeats (graphs.map graphDigest)
    erasePlaces? places graphs = some ((keptFiles tree paths).map (graphAt tree)) ∧
      erasePlaces? places paths = some (keptFiles tree paths) := by
  intro graphs places
  have digests : places = repeats (paths.map (digestAt tree)) := by
    simp only [places, graphs, List.map_map]
    rfl
  constructor
  · rw [erasePlaces?_repeats, firsts_map]
    rfl
  · rw [digests, erasePlaces?_repeats]
    rfl

theorem dedup_loadAll (tree : Tree) (paths failed : List Path) :
    LoadedGraphs.dedup ⟨paths.map (graphAt tree), paths, failed⟩ =
      ⟨(keptFiles tree paths).map (graphAt tree), keptFiles tree paths, failed⟩ := by
  obtain ⟨graphs, files⟩ := erasePlaces?_graphs tree paths
  unfold LoadedGraphs.dedup
  dsimp only at graphs files ⊢
  rw [withoutPlaces_of_erasePlaces? graphs, withoutPlaces_of_erasePlaces? files]

/-- The group of files that all hold graphs, with the files that were written. -/
def loadedGroup (tree : Tree) (binary : String) (paths written : List Path) : GraphGroup where
  binary
  kept := keptFiles tree paths
  statistics := ⟨paths.length, (keptFiles tree paths).length⟩
  written

theorem zip_keptGraphs (tree : Tree) (paths : List Path) :
    ((keptFiles tree paths).map (graphAt tree)).zip (keptFiles tree paths) =
      keptGraphs tree paths := by
  have both := List.zip_map' (f := graphAt tree) (g := id) (l := keptFiles tree paths)
  rwa [List.map_id] at both

/-- A group of files that all hold graphs writes the graphs that are kept. -/
theorem on_dedupGraphs {directory : Path} {binary : String} {paths : List Path} {w : Workspace}
    (loadable : ∀ p ∈ paths, Loadable w.tree p) :
    (dedupGraphs (some directory) binary paths).on w =
      (do
        let written ← (keptGraphs w.tree paths).mapM (writeSurvivor directory)
        Job.report (.groupDeduplicated binary paths.length (keptFiles w.tree paths).length)
        return loadedGroup w.tree binary paths written).on w := by
  unfold dedupGraphs
  rw [Job.on_bind_of_ok (on_loadAll loadable), dedup_loadAll]
  dsimp only
  rw [zip_keptGraphs, List.length_map, List.length_map]
  rfl

end FlowCorpus.Dedup
