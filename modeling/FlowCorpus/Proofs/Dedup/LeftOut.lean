import FlowCorpus.Dedup.RecordCorpus
import FlowCorpus.Proofs.Batch.Attempts
import FlowCorpus.Proofs.Batch.Generators
import FlowCorpus.Proofs.Dedup.Records
import FlowCorpus.Proofs.Dedup.Survivors
import FlowCorpus.Proofs.Json.Numeral

/-!
# Files that are left out

A group lists the files that hold nothing it can use as failed, and is otherwise what it is without
them. Only a text that the decoder gives up on, for an integer with too many digits or too many open
brackets, costs the whole group, and so does a record that has no digest.
-/

set_option autoImplicit false

namespace FlowCorpus.Dedup

open FlowCorpus.Batch FlowCorpus.Digest FlowCorpus.Json FlowCorpus.Number FlowCorpus.Storage
open FlowCorpus.Text

/-! ## What files hold -/

/-- The value in a file, unless it is no text or no JSON. -/
def valueIn? (tree : Tree) (path : Path) : Option Value :=
  match tree.readText path with
  | .ok s => (decode s).toOption
  | .error _ => none

def textsIn? (tree : Tree) (path : Path) : Option Texts :=
  (valueIn? tree path).bind textsOf?

def graphIn? (tree : Tree) (path : Path) : Option Fields :=
  (valueIn? tree path).bind graphFields?

/-- The fault with which a file costs its whole group: the decoder gives up on its text, or a null
character stands in its path. -/
def cost? (tree : Tree) (path : Path) : Option Fault :=
  match tree.readText path with
  | .ok s =>
    match decode s with
    | .error fault => if fault.escapes then some fault else none
    | .ok _ => none
  | .error fault => if fault = .nullInPath then some fault else none

/-- The fault with which a file of records costs its whole group: besides that of any file, that of
the first record that has no digest. -/
def recordCost? (justValue : Bool) (tree : Tree) (file : RecordFile) : Option Fault :=
  (cost? tree file.path).or <| (textsIn? tree file.path).bind fun texts =>
    (file.recordsOf texts).findSome? (Record.fault? justValue)

theorem readText_error {tree : Tree} {path : Path} {fault : Fault}
    (failed : tree.readText path = .error fault) :
    fault = .nullInPath ∨ fault = .notText ∨ ∃ cause place, fault = .store cause place := by
  rcases Outcome.bind_error failed with located | ⟨location, -, there⟩
  · rcases Tree.locate_error located with null | store
    · exact .inl null
    · exact .inr (.inr store)
  · split at there <;> cases there
    · exact .inr (.inr ⟨_, _, rfl⟩)
    · exact .inr (.inr ⟨_, _, rfl⟩)
    · exact .inr (.inl rfl)

/-- The ways in which a file comes out: its value is decoded, it costs the group, or it holds no
value, which has a reason that is passed over. -/
theorem reading_cases (tree : Tree) (path : Path) :
    (∃ s value, tree.readText path = .ok s ∧ decode s = .ok value ∧ cost? tree path = none ∧
        valueIn? tree path = some value) ∨
      (∃ s fault, tree.readText path = .ok s ∧ decode s = .error fault ∧ fault.escapes = true ∧
        cost? tree path = some fault) ∨
      (∃ s, tree.readText path = .ok s ∧ decode s = .error .malformedJson ∧
        cost? tree path = none ∧ valueIn? tree path = none) ∨
      (tree.readText path = .error .nullInPath ∧ cost? tree path = some .nullInPath) ∨
      ∃ fault, tree.readText path = .error fault ∧
        (fault = .notText ∨ ∃ cause place, fault = .store cause place) ∧
        cost? tree path = none ∧ valueIn? tree path = none := by
  unfold cost? valueIn?
  cases read : tree.readText path with
  | ok s =>
      cases decoded : decode s with
      | ok value => exact .inl ⟨s, value, rfl, decoded, by simp [decoded, Except.toOption]⟩
      | error fault =>
          rcases decode_error decoded with rfl | escapes
          · refine .inr (.inr (.inl ⟨s, rfl, decoded, ?_⟩))
            simp [decoded, Except.toOption, Fault.escapes]
          · exact .inr (.inl ⟨s, fault, rfl, decoded, escapes, by simp [decoded, escapes]⟩)
  | error fault =>
      rcases readText_error read with rfl | passed
      · exact .inr (.inr (.inr (.inl ⟨rfl, rfl⟩)))
      · refine .inr (.inr (.inr (.inr ⟨fault, rfl, passed, ?_, rfl⟩)))
        rcases passed with rfl | ⟨cause, place, rfl⟩ <;> rfl

/-- The texts of a file are found, missed, or cost the group. -/
theorem answers_loadTexts (path : Path) :
    (loadTexts path).Answers fun tree =>
      match cost? tree path with
      | some fault => .error fault
      | none => .ok (textsIn? tree path) := by
  intro w
  obtain ⟨middle, ran, same⟩ := (answers_readReporting path).exists_on (w := w) rfl
  unfold loadTexts textsIn?
  rw [Job.on_bind, ran]
  rcases reading_cases w.tree path with ⟨s, value, read, decoded, free, held⟩ |
    ⟨s, fault, read, decoded, escapes, costs⟩ | ⟨s, read, decoded, free, held⟩ | ⟨read, costs⟩ |
    ⟨fault, read, passed, free, held⟩
  · simp only [read, textFrom, decoded, free, held, Option.bind_some]
    cases textsOf? value with
    | some texts => exact Prod.ext rfl same
    | none => exact Prod.ext rfl same
  · simp only [read, textFrom, decoded, costs]
    cases fault <;> cases escapes <;> exact Prod.ext rfl same
  · simp only [read, textFrom, decoded, free, held, Option.bind_none]
    exact Prod.ext rfl same
  · simp only [read, textFrom, costs]
    exact Prod.ext rfl same
  · rcases passed with rfl | ⟨cause, place, rfl⟩ <;>
      simp only [read, textFrom, Fault.kind, free, held, Option.bind_none] <;>
      exact Prod.ext rfl same

theorem loadGraph_eq (tree : Tree) (path : Path) :
    (∃ fields, graphIn? tree path = some fields ∧ cost? tree path = none ∧
        loadGraph tree path = .ok fields) ∨
      (∃ fault, cost? tree path = some fault ∧ loadGraph tree path = .error fault ∧
        fault.kind ≠ .load) ∨
      ∃ fault, graphIn? tree path = none ∧ cost? tree path = none ∧
        loadGraph tree path = .error fault ∧ fault.kind = .load := by
  unfold graphIn? loadGraph
  rcases reading_cases tree path with ⟨s, value, read, decoded, free, held⟩ |
    ⟨s, fault, read, decoded, escapes, costs⟩ | ⟨s, read, decoded, free, held⟩ | ⟨read, costs⟩ |
    ⟨fault, read, passed, free, held⟩
  · rw [free, held]
    simp only [read, decoded, Option.bind_some]
    cases found : graphFields? value with
    | some fields => exact .inl ⟨fields, rfl, trivial, rfl⟩
    | none => exact .inr (.inr ⟨_, rfl, trivial, rfl, rfl⟩)
  · rw [costs]
    simp only [read, decoded]
    refine .inr (.inl ⟨fault, rfl, ?_⟩)
    cases fault <;> cases escapes <;> exact ⟨rfl, by simp [Fault.kind]⟩
  · rw [free, held]
    simp only [read, decoded]
    exact .inr (.inr ⟨_, rfl, trivial, rfl, rfl⟩)
  · rw [costs]
    simp only [read]
    exact .inr (.inl ⟨_, rfl, rfl, by simp [Fault.kind]⟩)
  · rw [free, held]
    simp only [read]
    refine .inr (.inr ⟨.unreadableGraph path.text, rfl, trivial, ?_, rfl⟩)
    rcases passed with rfl | ⟨cause, place, rfl⟩ <;> rfl

theorem answers_loadNext (loaded : LoadedGraphs) (path : Path) :
    (loadNext loaded path).Answers fun tree =>
      match cost? tree path with
      | some fault => .error fault
      | none =>
        match graphIn? tree path with
        | some fields => .ok { loaded with
            graphs := loaded.graphs ++ [.obj fields], paths := loaded.paths ++ [path] }
        | none => .ok { loaded with failed := loaded.failed ++ [path] } := by
  intro w
  unfold loadNext
  rw [Job.on_bind, Job.on_attempt, Job.on_ask]
  rcases loadGraph_eq w.tree path with ⟨fields, held, free, loads⟩ | ⟨fault, costs, loads, kept⟩ |
    ⟨fault, missed, free, loads, passed⟩
  · simp only [loads, free, held]
    rfl
  · simp only [loads, costs, if_neg kept]
    rfl
  · simp only [loads, free, missed, if_pos passed]
    rfl

/-! ## Files one after the other -/

section

variable {ι α γ δ σ κ : Type}

/-- Steps that take what files hold, and note the files that hold nothing: `build` is the state of
what was taken and of the files that were noted. -/
structure Gathers (cost : ι → Option Fault) (held : ι → Option α) (path : ι → Path)
    (add : δ → ι → α → δ) (build : δ → List Path → σ) (step : σ → ι → Except Fault σ) : Prop where
  lost : ∀ state file fault, cost file = some fault → step state file = .error fault
  taken : ∀ taken failed file a, cost file = none → held file = some a →
    step (build taken failed) file = .ok (build (add taken file a) failed)
  noted : ∀ taken failed file, cost file = none → held file = none →
    step (build taken failed) file = .ok (build taken (failed ++ [path file]))

variable {cost : ι → Option Fault} {held : ι → Option α} {path : ι → Path}
  {add : δ → ι → α → δ} {build : δ → List Path → σ} {step : σ → ι → Except Fault σ}
  {files : List ι}

theorem Gathers.foldlM_lost (gathers : Gathers cost held path add build step) {fault : Fault}
    (first : files.findSome? cost = some fault) (taken : δ) (failed : List Path) :
    files.foldlM step (build taken failed) = .error fault := by
  induction files generalizing taken failed with
  | nil => cases first
  | cons file rest ih =>
      rw [List.foldlM_cons]
      cases costs : cost file with
      | some other =>
          rw [List.findSome?_cons_of_isSome (by rw [costs]; rfl), costs] at first
          cases first
          rw [gathers.lost _ file fault costs]
          rfl
      | none =>
          rw [List.findSome?_cons_of_isNone (by rw [costs]; rfl)] at first
          cases holds : held file with
          | some a =>
              rw [gathers.taken taken failed file a costs holds]
              exact ih first _ _
          | none =>
              rw [gathers.noted taken failed file costs holds]
              exact ih first _ _

/-- Where no file costs the group, the files that hold nothing are noted, and all else is as without
them. -/
theorem Gathers.foldlM_left (gathers : Gathers cost held path add build step)
    (free : files.findSome? cost = none) (taken : δ) (failed : List Path) :
    ∃ all, (files.filter fun file => (held file).isSome).foldlM step (build taken []) =
        .ok (build all []) ∧
      files.foldlM step (build taken failed) =
        .ok (build all (failed ++ (files.filter fun file => (held file).isNone).map path)) := by
  -- A file is taken in both runs, or it is noted in the one and not there in the other.
  induction files generalizing taken failed with
  | nil => exact ⟨taken, rfl, by rw [List.filter_nil, List.map_nil, List.append_nil]; rfl⟩
  | cons file rest ih =>
      rw [List.findSome?_eq_none_iff, List.forall_mem_cons] at free
      obtain ⟨costs, others⟩ := free
      rw [← List.findSome?_eq_none_iff] at others
      rw [List.foldlM_cons, List.filter_cons, List.filter_cons]
      cases holds : held file with
      | some a =>
          obtain ⟨all, usable, whole⟩ := ih others (add taken file a) failed
          refine ⟨all, ?_, ?_⟩
          · simp only [Option.isSome_some, ↓reduceIte]
            rw [List.foldlM_cons, gathers.taken taken [] file a costs holds]
            exact usable
          · rw [gathers.taken taken failed file a costs holds]
            exact whole
      | none =>
          obtain ⟨all, usable, whole⟩ := ih others taken (failed ++ [path file])
          rw [List.append_assoc] at whole
          refine ⟨all, usable, ?_⟩
          rw [gathers.noted taken failed file costs holds]
          exact whole

/-! ## Groups -/

/-- The turn of a group: it is lost to the first file that costs it. Where there is none, its result
is that of the files that hold something, with the other ones listed as failed, and only writing can
stop it. -/
structure GroupTurn (task : List ι → Job γ) (path : ι → Path) (cost : Tree → ι → Option Fault)
    (held : Tree → ι → Option α) (withFailed : List Path → γ → γ) (writes : Bool) (files : List ι)
    (turn : Tree.Turn κ (Except Fault γ)) : Prop where
  lost : ∀ fault, files.findSome? (cost turn.before) = some fault →
    turn.result = .error fault ∧ turn.after = turn.before
  left : files.findSome? (cost turn.before) = none →
    ∀ w : Workspace, w.tree = turn.before →
      let usable := (task (files.filter fun file => (held turn.before file).isSome)).on w
      turn.result = usable.1.map (withFailed
          ((files.filter fun file => (held turn.before file).isNone).map path)) ∧
        turn.after = usable.2.tree
  stopped : files.findSome? (cost turn.before) = none →
    ∀ fault, turn.result = .error fault → writes = true ∧ Tree.IsStoreFault fault
  idle : writes = false → turn.after = turn.before

/-- What a group does to a tree that gathers its files and then finishes. -/
def groupAction (step : Tree → σ → ι → Except Fault σ)
    (finish : σ → Tree → Except Fault γ × Tree) (start : σ) (files : List ι) (tree : Tree) :
    Except Fault γ × Tree :=
  match files.foldlM (step tree) start with
  | .ok state => finish state tree
  | .error fault => (.error fault, tree)

/-- A group that gathers its files and then finishes: only finishing can write, and the files that
were noted are only listed. -/
structure Gathering (task : List ι → Job γ) (path : ι → Path) (cost : Tree → ι → Option Fault)
    (held : Tree → ι → Option α) (withFailed : List Path → γ → γ) (writes : Bool)
    (add : δ → ι → α → δ) (build : δ → List Path → σ) (start : δ)
    (step : Tree → σ → ι → Except Fault σ)
    (finish : σ → Tree → Except Fault γ × Tree) : Prop where
  acts : ∀ files, (task files).Acts (groupAction step finish (build start []) files)
  gathers : ∀ tree, Gathers (cost tree) (held tree) path add build (step tree)
  notes : ∀ taken failed tree, finish (build taken failed) tree =
    ((finish (build taken []) tree).1.map (withFailed failed), (finish (build taken []) tree).2)
  stopped : ∀ state tree fault, (finish state tree).1 = .error fault →
    writes = true ∧ Tree.IsStoreFault fault
  idle : writes = false → ∀ state tree, (finish state tree).2 = tree

theorem Gathering.groupTurn {task : List ι → Job γ} {cost : Tree → ι → Option Fault}
    {held : Tree → ι → Option α} {withFailed : List Path → γ → γ} {writes : Bool} {start : δ}
    {step : Tree → σ → ι → Except Fault σ} {finish : σ → Tree → Except Fault γ × Tree}
    (gathering : Gathering task path cost held withFailed writes add build start step finish)
    {turn : Tree.Turn κ (Except Fault γ)}
    (ran : groupAction step finish (build start []) files turn.before = (turn.result, turn.after)) :
    GroupTurn task path cost held withFailed writes files turn := by
  have gathers := gathering.gathers turn.before
  unfold groupAction at ran
  cases first : files.findSome? (cost turn.before) with
  | some fault =>
      rw [gathers.foldlM_lost first] at ran
      obtain ⟨result, left⟩ := Prod.mk.inj ran
      refine ⟨fun other same => ?_, fun free => ?_, fun free => ?_, fun _ => left.symm⟩
      · cases first.symm.trans same
        exact ⟨result.symm, left.symm⟩
      · cases first.symm.trans free
      · cases first.symm.trans free
  | none =>
      obtain ⟨all, usable, whole⟩ := gathers.foldlM_left first start []
      rw [whole] at ran
      refine ⟨fun other same => ?_, fun _ w here => ?_, fun _ fault stopped => ?_, fun idle => ?_⟩
      · cases first.symm.trans same
      · -- Both runs finish from the same state, but for the files that were noted.
        have without := gathering.acts (files.filter fun file => (held turn.before file).isSome) w
        unfold groupAction at without
        rw [here, usable] at without
        obtain ⟨result, left⟩ := Prod.mk.inj without
        obtain ⟨noted, after⟩ := Prod.mk.inj ((gathering.notes all _ turn.before).symm.trans ran)
        dsimp only
        rw [result, left]
        exact ⟨noted.symm, after.symm⟩
      · exact gathering.stopped _ turn.before fault ((congrArg Prod.fst ran).trans stopped)
      · exact (congrArg Prod.snd ran).symm.trans (gathering.idle idle _ turn.before)

end

/-! ## Groups of records -/

def entriesOf (justValue : Bool) (file : RecordFile) (texts : Texts) : List Kept :=
  (file.recordsOf texts).map (Record.entry (Record.digest justValue))

def addTexts (justValue : Bool) (records : List Kept) (file : RecordFile) (texts : Texts) :
    List Kept :=
  records ++ entriesOf justValue file texts

def gatherIn (justValue : Bool) (tree : Tree) (gathered : Gathered) (file : RecordFile) :
    Except Fault Gathered :=
  match recordCost? justValue tree file with
  | some fault => .error fault
  | none =>
    match textsIn? tree file.path with
    | some texts => .ok { gathered with records := addTexts justValue gathered.records file texts }
    | none => .ok { gathered with failed := gathered.failed ++ [file.path] }

/-- The records of a file are digested before the next file is looked at. -/
theorem answers_gather (justValue : Bool) (gathered : Gathered) (file : RecordFile) :
    (gather justValue gathered file).Answers fun tree =>
      gatherIn justValue tree gathered file := by
  refine ((answers_loadTexts file.path).bind fun found => Job.Aside.answers ?_).congr fun tree => ?_
  · cases found with
    | none => exact Job.aside_pure _
    | some texts => exact (Job.aside_ofExcept _).bind fun records => Job.aside_pure _
  · unfold gatherIn recordCost?
    dsimp only
    cases cost? tree file.path with
    | some fault => rfl
    | none =>
        cases textsIn? tree file.path with
        | none => rfl
        | some texts =>
            simp only [Option.none_or, Option.bind_some, mapM_kept]
            cases (file.recordsOf texts).findSome? (Record.fault? justValue) <;> rfl

theorem isStoreFault_of_place {tree : Tree} {path : Path} {s : String} {γ : Type} {g : Unit → γ}
    {fault : Fault} (failed : (tree.place path (.ok s)).1.map g = .error fault) :
    Tree.IsStoreFault fault := by
  have refused := Outcome.map_error failed
  exact Tree.place_error (Prod.ext refused rfl)

def recordGroup (directory : Option Path) (binary : String) (gathered : Gathered) : RecordGroup :=
  let (kept, statistics) := firstKept gathered.records
  ⟨binary, kept, statistics, gathered.failed, directory.map fun d => groupPath d binary⟩

def putRecords (directory : Option Path) (binary : String) (gathered : Gathered) (tree : Tree) :
    Except Fault RecordGroup × Tree :=
  let group := recordGroup directory binary gathered
  match directory with
  | none => (.ok group, tree)
  | some d =>
    let placed := tree.place (groupPath d binary)
      (.ok (Value.arr (group.kept.map Kept.toJson)).render)
    (placed.1.map fun _ => group, placed.2)

theorem gathering_dedupRecords (justValue : Bool) (directory : Option Path) (binary : String) :
    Gathering (dedupRecords justValue directory binary) RecordFile.path (recordCost? justValue)
      (fun tree file => textsIn? tree file.path) (fun failed group => { group with failed })
      directory.isSome (addTexts justValue) Gathered.mk [] (gatherIn justValue)
      (putRecords directory binary) where
  acts files := by
    refine (Job.answers_foldlM (answers_gather justValue) files {}).bind fun gathered => ?_
    cases directory with
    | none => exact fun _ => rfl
    | some d =>
        exact (Job.acts_writeBelow _ _).finish fun _ => fun _ => rfl
  gathers tree := by
    refine ⟨fun state file fault costs => ?_, fun taken failed file texts free holds => ?_,
      fun taken failed file free missed => ?_⟩
    · rw [gatherIn, costs]
    · rw [gatherIn, free, holds]
    · rw [gatherIn, free, missed]
  notes taken failed tree := by
    cases directory with
    | none => rfl
    | some d =>
        unfold putRecords
        dsimp only [recordGroup]
        rcases tree.place (groupPath d binary) _ with ⟨_ | _, later⟩ <;> rfl
  stopped gathered tree fault failed := by
    cases directory with
    | none => cases failed
    | some d =>
        simp only [putRecords] at failed
        exact ⟨rfl, isStoreFault_of_place failed⟩
  idle none := by
    cases directory with
    | none => exact fun _ _ => rfl
    | some d => cases none

/-! ## Groups of graphs -/

def addGraph (taken : List Value × List Path) (path : Path) (fields : Fields) :
    List Value × List Path :=
  (taken.1 ++ [.obj fields], taken.2 ++ [path])

def loadIn (tree : Tree) (loaded : LoadedGraphs) (path : Path) : Except Fault LoadedGraphs :=
  match cost? tree path with
  | some fault => .error fault
  | none =>
    match graphIn? tree path with
    | some fields => .ok { loaded with
        graphs := loaded.graphs ++ [.obj fields], paths := loaded.paths ++ [path] }
    | none => .ok { loaded with failed := loaded.failed ++ [path] }

def putGraph (directory : Path) (survivor : Value × Path) (tree : Tree) :
    Except Fault Path × Tree :=
  let placed := tree.place (keptPath directory survivor.2) (.ok survivor.1.render)
  (placed.1.map fun _ => keptPath directory survivor.2, placed.2)

theorem acts_writeSurvivor (directory : Path) (survivor : Value × Path) :
    (writeSurvivor directory survivor).Acts (putGraph directory survivor) :=
  (Job.acts_writeBelow _ _).finish fun _ => fun _ => rfl

theorem putGraph_error {directory : Path} {survivor : Value × Path} {tree : Tree} {fault : Fault}
    (failed : (putGraph directory survivor tree).1 = .error fault) : Tree.IsStoreFault fault := by
  simp only [putGraph] at failed
  exact isStoreFault_of_place failed

def graphGroup (binary : String) (loaded : LoadedGraphs) (written : List Path) : GraphGroup where
  binary
  kept := loaded.dedup.paths
  statistics := ⟨loaded.graphs.length, loaded.dedup.graphs.length⟩
  failed := loaded.failed
  written

def putGraphs (directory : Option Path) (binary : String) (loaded : LoadedGraphs) (tree : Tree) :
    Except Fault GraphGroup × Tree :=
  match directory with
  | none => (.ok (graphGroup binary loaded []), tree)
  | some d =>
    let put := Tree.inTurn (putGraph d) (loaded.dedup.graphs.zip loaded.dedup.paths) tree
    (put.1.map (graphGroup binary loaded), put.2)

theorem gathering_dedupGraphs (directory : Option Path) (binary : String) :
    Gathering (dedupGraphs directory binary) id cost? graphIn?
      (fun failed group => { group with failed }) directory.isSome addGraph
      (fun taken failed => ⟨taken.1, taken.2, failed⟩) ([], []) loadIn
      (putGraphs directory binary) where
  acts files := by
    refine (Job.answers_foldlM answers_loadNext files {}).bind fun loaded => ?_
    cases directory with
    | none => exact fun _ => rfl
    | some d =>
        exact (Job.acts_mapM (acts_writeSurvivor d) _).finish fun _ => fun _ => rfl
  gathers tree := by
    refine ⟨fun state path fault costs => ?_, fun taken failed path fields free holds => ?_,
      fun taken failed path free missed => ?_⟩
    · rw [loadIn, costs]
    · rw [loadIn, free, holds]
      rfl
    · rw [loadIn, free, missed]
      rfl
  notes taken failed tree := by
    cases directory with
    | none => rfl
    | some d =>
        unfold putGraphs
        dsimp only [LoadedGraphs.dedup]
        rcases Tree.inTurn (putGraph d) _ tree with ⟨_ | _, later⟩ <;> rfl
  stopped loaded tree fault failed := by
    cases directory with
    | none => cases failed
    | some d =>
        simp only [putGraphs] at failed
        have refused := Outcome.map_error failed
        exact ⟨rfl, Tree.inTurn_error (fun _ _ _ => putGraph_error) refused⟩
  idle none := by
    cases directory with
    | none => exact fun _ _ => rfl
    | some d => cases none

/-! ## Corpora -/

/-- A batch gives every group its turn, and has the results of all of them, or the first fault among
them. -/
def TakesTurns {κ γ : Type} (batch : Job (List γ)) (groups : List κ)
    (turnOf : κ → Tree.Turn κ (Except Fault γ) → Prop) : Prop :=
  ∀ w, ∃ (turns : List (Tree.Turn κ (Except Fault γ))) (later : Workspace),
    batch.on w = ((turns.map Tree.Turn.result).mapM id, later) ∧
    Tree.Turns w.tree turns later.tree ∧ turns.map Tree.Turn.item = groups ∧
    ∀ turn ∈ turns, turnOf turn.item turn

/-- A batch of one group has its turn only. -/
theorem TakesTurns.single {κ γ : Type} {batch : Job (List γ)} {group : κ}
    {turnOf : κ → Tree.Turn κ (Except Fault γ) → Prop} (takes : TakesTurns batch [group] turnOf)
    (w : Workspace) :
    ∃ turn : Tree.Turn κ (Except Fault γ), turnOf group turn ∧ turn.before = w.tree ∧
      (batch.on w).1 = turn.result.map fun result => [result] := by
  obtain ⟨turns, later, ran, chain, items, each⟩ := takes w
  obtain ⟨turn, rfl, rfl⟩ := List.map_eq_singleton_iff.mp items
  refine ⟨turn, each turn List.mem_cons_self, ?_, ?_⟩
  · cases chain
    rfl
  · rw [ran, List.map_cons, List.map_nil, List.mapM_cons]
    cases turn.result <;> rfl

def RecordTurn (corpus : RecordCorpus) (justValue : Bool) (directory : Option Path)
    (binary : String) : Tree.Turn String (Except Fault RecordGroup) → Prop :=
  GroupTurn (dedupRecords justValue directory binary) RecordFile.path (recordCost? justValue)
    (fun tree file => textsIn? tree file.path) (fun failed group => { group with failed })
    directory.isSome (corpus.filesOf binary)

def GraphTurn (directory : Option Path) (group : String × List Path) :
    Tree.Turn (String × List Path) (Except Fault GraphGroup) → Prop :=
  GroupTurn (dedupGraphs directory group.1) id cost? graphIn?
    (fun failed group => { group with failed }) directory.isSome group.2

theorem RecordCorpus.takesTurns (corpus : RecordCorpus) (justValue : Bool)
    (directory : Option Path) {workers : Int}
    (pool : poolFault? workers corpus.binaries.length = none) :
    TakesTurns (corpus.dedup justValue directory workers) corpus.binaries
      (RecordTurn corpus justValue directory) := by
  intro w
  have acts (binary : String) :=
    (gathering_dedupRecords justValue directory binary).acts (corpus.filesOf binary)
  obtain ⟨turns, later, ran, chain, groups, steps⟩ := forkJoin_turns acts pool w
  refine ⟨turns, later, ran, chain, groups, fun turn member => ?_⟩
  exact (gathering_dedupRecords justValue directory turn.item).groupTurn (steps turn member)

theorem GraphCorpus.takesTurns (corpus : GraphCorpus) (directory : Option Path) {workers : Int}
    (pool : poolFault? workers corpus.groups.length = none) :
    TakesTurns (corpus.dedup directory workers) corpus.groups (GraphTurn directory) := by
  intro w
  have acts (group : String × List Path) :=
    (gathering_dedupGraphs directory group.1).acts group.2
  obtain ⟨turns, later, ran, chain, groups, steps⟩ := forkJoin_turns acts pool w
  refine ⟨turns, later, ran, chain, groups, fun turn member => ?_⟩
  exact (gathering_dedupGraphs directory turn.item.1).groupTurn (steps turn member)

/-! ## A file beside another one -/

def bothKinds : Fields := [("adjacency", .str ""), ("nodes", .str "")]

/-- A file with some content, and one with texts that are a graph as well. -/
def beside (content : Content) : Tree where
  entries := [(["c"], .directory), (["c", "x86_ls_gcc"], .directory),
    (["c", "x86_ls_gcc", "a_f.json"], .file content),
    (["c", "x86_ls_gcc", "b_f.json"], .file (.text (Value.obj bothKinds).render))]

def firstFile : Path := ⟨"", ["c", "x86_ls_gcc", "a_f.json"]⟩

def secondFile : Path := ⟨"", ["c", "x86_ls_gcc", "b_f.json"]⟩

def besideRecords : RecordCorpus where
  files := [RecordFile.ofPath firstFile, RecordFile.ofPath secondFile]

def besideGraphs : GraphCorpus where
  groups := [("ls", [firstFile, secondFile])]

theorem decode_bothKinds : decode (Value.obj bothKinds).render = .ok (.obj bothKinds) := by
  refine decode_of_readable ?_
  simp [bothKinds, Value.Readable, FieldsReadable, openLimit]

theorem readText_secondFile (content : Content) :
    (beside content).readText secondFile = .ok (Value.obj bothKinds).render := by
  have holds : (beside content).Holds secondFile (Value.obj bothKinds).render := by
    constructor
    · rfl
    · rfl
  exact holds.readText_plain (noReturn_render _)

theorem valueIn?_secondFile (content : Content) :
    valueIn? (beside content) secondFile = some (.obj bothKinds) := by
  unfold valueIn?
  rw [readText_secondFile]
  dsimp only
  rw [decode_bothKinds]
  rfl

theorem binaries_beside : besideRecords.binaries = ["f"] := by decide +kernel

theorem filesOf_beside : besideRecords.filesOf "f" = besideRecords.files := by decide +kernel

theorem cost?_secondFile (content : Content) : cost? (beside content) secondFile = none := by
  unfold cost?
  rw [readText_secondFile]
  dsimp only
  rw [decode_bothKinds]

theorem textsIn?_secondFile (content : Content) :
    textsIn? (beside content) secondFile =
      some ([("adjacency", ""), ("nodes", "")] : Texts) := by
  unfold textsIn?
  rw [valueIn?_secondFile]
  rfl

theorem recordCost?_secondFile (content : Content) {file : RecordFile}
    (here : file.path = secondFile) : recordCost? true (beside content) file = none := by
  simp [recordCost?, here, cost?_secondFile, textsIn?_secondFile, RecordFile.recordsOf,
    Record.fault?, encodingFault?]

theorem graphIn?_secondFile (content : Content) :
    graphIn? (beside content) secondFile = some bothKinds := by
  unfold graphIn?
  rw [valueIn?_secondFile]
  rfl

theorem on_besideRecords (content : Content) (journal : List Event) :
    ((dedupRecords true none "f" [RecordFile.ofPath secondFile]).on ⟨beside content, journal⟩).1 =
      .ok ⟨"f", [⟨"adjacency", sha256 [], "", "b"⟩], ⟨2, 1⟩, [], none⟩ := by
  have acts := (gathering_dedupRecords true none "f").acts [RecordFile.ofPath secondFile]
  have gathered : gatherIn true (beside content) ⟨[], []⟩ (RecordFile.ofPath secondFile) =
      .ok ⟨[⟨"adjacency", sha256 [], "", "b"⟩, ⟨"nodes", sha256 [], "", "b"⟩], []⟩ := by
    have triple : (RecordFile.ofPath secondFile).triple = "b" := by decide +kernel
    have path : (RecordFile.ofPath secondFile).path = secondFile := rfl
    simp only [gatherIn, recordCost?_secondFile content path, path, textsIn?_secondFile, addTexts,
      entriesOf, RecordFile.recordsOf, triple]
    rfl
  have kept : firstKept [⟨"adjacency", sha256 [], "", "b"⟩, ⟨"nodes", sha256 [], "", "b"⟩] =
      ([⟨"adjacency", sha256 [], "", "b"⟩], ⟨2, 1⟩) := by
    simp [firstKept, firsts, firstsAfter]
  rw [congrArg Prod.fst (acts ⟨beside content, journal⟩)]
  simp only [groupAction, List.foldlM_cons, gathered, bind, Except.bind, List.foldlM_nil, pure,
    Except.pure, putRecords, recordGroup, kept, Option.map_none]

theorem on_besideGraphs (content : Content) (journal : List Event) :
    ((dedupGraphs none "ls" [secondFile]).on ⟨beside content, journal⟩).1 =
      .ok ⟨"ls", [secondFile], ⟨1, 1⟩, [], []⟩ := by
  have acts := (gathering_dedupGraphs none "ls").acts [secondFile]
  have loaded : loadIn (beside content) ⟨[], [], []⟩ secondFile =
      .ok ⟨[.obj bothKinds], [secondFile], []⟩ := by
    simp only [loadIn, cost?_secondFile, graphIn?_secondFile]
    rfl
  rw [congrArg Prod.fst (acts ⟨beside content, journal⟩)]
  simp only [groupAction, List.foldlM_cons, loaded]
  rfl

def longInteger (count : Nat) : String :=
  String.ofList (List.replicate count '1')

theorem decode_longInteger {count : Nat} (many : digitLimit < count) :
    decode (longInteger count) = .error (.integerTooLong count) := by
  have all : AllDigits (List.replicate count '1') := by
    intro c member
    rw [List.eq_of_mem_replicate member]
    rfl
  obtain ⟨more, rfl⟩ : ∃ more, count = more + 1 := ⟨count - 1, by omega⟩
  have whole : Whole (List.replicate (more + 1) '1') :=
    ⟨all, by simp, by simp [List.replicate_succ]⟩
  have number : readNumber false (List.replicate (more + 1) '1') =
      .error (.integerTooLong (more + 1)) := by
    rw [← List.append_nil (List.replicate (more + 1) '1'),
      readNumber_whole whole noDigit_nil]
    simp [numberFrom, fraction?, scale?, many]
  have scalar : Scalar (List.replicate (more + 1) '1') := by simp [Scalar, List.replicate_succ]
  have start : skipBlanks (List.replicate (more + 1) '1') = List.replicate (more + 1) '1' :=
    skipBlanks_of_head (by decide) _
  have read : parse (longInteger (more + 1)) = .error (.integerTooLong (more + 1)) := by
    unfold longInteger parse parseChars fuelFor
    rw [String.toList_ofList, start, readValue_scalar scalar, List.replicate_succ,
      (readScalar_digit (by decide) _).1, ← List.replicate_succ, number]
  unfold decode
  rw [read]

theorem reading_longInteger {count : Nat} (many : digitLimit < count) :
    cost? (beside (.text (longInteger count))) firstFile = some (.integerTooLong count) ∧
      valueIn? (beside (.text (longInteger count))) firstFile = none := by
  have holds : (beside (.text (longInteger count))).Holds firstFile (longInteger count) :=
    ⟨rfl, rfl⟩
  have plain : '\r' ∉ (longInteger count).toList := by
    unfold longInteger
    rw [String.toList_ofList]
    exact fun member => absurd (List.eq_of_mem_replicate member) (by decide)
  unfold cost? valueIn?
  rw [holds.readText_plain plain]
  dsimp only
  rw [decode_longInteger many]
  exact ⟨rfl, rfl⟩

/-! ## What is left out -/

/-- Whatever the files of two corpora hold, a group leaves out those that hold no texts or no graph,
unless the decoder gives up on one or a record of it has no digest. -/
theorem corpora_leaveOut (records : RecordCorpus) (justValue : Bool) (graphs : GraphCorpus)
    (directory : Option Path) (workers : Int)
    (recordPool : poolFault? workers records.binaries.length = none)
    (graphPool : poolFault? workers graphs.groups.length = none) :
    TakesTurns (records.dedup justValue directory workers) records.binaries
        (RecordTurn records justValue directory) ∧
      TakesTurns (graphs.dedup directory workers) graphs.groups (GraphTurn directory) :=
  ⟨records.takesTurns justValue directory recordPool, graphs.takesTurns directory graphPool⟩

/-- A file of bytes that are no text is left out of both corpora. -/
theorem corpora_leaveOut_binary :
    poolFault? 1 besideRecords.binaries.length = none ∧
      poolFault? 1 besideGraphs.groups.length = none ∧
      ((besideRecords.dedup true none 1).on ⟨beside (.binary [255]), []⟩).1 =
        .ok [⟨"f", [⟨"adjacency", sha256 [], "", "b"⟩], ⟨2, 1⟩, [firstFile], none⟩] ∧
      ((besideGraphs.dedup none 1).on ⟨beside (.binary [255]), []⟩).1 =
        .ok [⟨"ls", [secondFile], ⟨1, 1⟩, [firstFile], []⟩] := by
  have read : (beside (.binary [255])).readText firstFile = .error .notText := rfl
  have free : cost? (beside (.binary [255])) firstFile = none := by
    unfold cost?
    rw [read]
    rfl
  have missed : valueIn? (beside (.binary [255])) firstFile = none := by
    unfold valueIn?
    rw [read]
  have recordPool : poolFault? 1 besideRecords.binaries.length = none := by decide +kernel
  have graphPool : poolFault? 1 besideGraphs.groups.length = none := by decide +kernel
  obtain ⟨records, graphs⟩ := corpora_leaveOut besideRecords true besideGraphs none 1 recordPool
    graphPool
  refine ⟨recordPool, graphPool, ?_, ?_⟩
  · have noTexts : textsIn? (beside (.binary [255])) firstFile = none := by
      rw [textsIn?, missed, Option.bind_none]
    have costless : recordCost? true (beside (.binary [255])) (RecordFile.ofPath firstFile) =
        none := by
      simp [recordCost?, RecordFile.ofPath, free, noTexts]
    have second : recordCost? true (beside (.binary [255])) (RecordFile.ofPath secondFile) =
        none := recordCost?_secondFile _ rfl
    rw [binaries_beside] at records
    obtain ⟨turn, outcome, before, ran⟩ := records.single ⟨beside (.binary [255]), []⟩
    have left := outcome.left
    rw [filesOf_beside, before] at left
    obtain ⟨result, -⟩ := left
      (by simp [besideRecords, costless, second]) ⟨_, []⟩ rfl
    have usable : besideRecords.files.filter (fun file =>
        (textsIn? (beside (.binary [255])) file.path).isSome) = [RecordFile.ofPath secondFile] := by
      simp [besideRecords, RecordFile.ofPath, noTexts, textsIn?_secondFile]
    have others : (besideRecords.files.filter fun file =>
        (textsIn? (beside (.binary [255])) file.path).isNone) = [RecordFile.ofPath firstFile] := by
      simp [besideRecords, RecordFile.ofPath, noTexts, textsIn?_secondFile]
    rw [ran, result, usable, others, on_besideRecords]
    rfl
  · have noGraph : graphIn? (beside (.binary [255])) firstFile = none := by
      rw [graphIn?, missed, Option.bind_none]
    obtain ⟨turn, outcome, before, ran⟩ := graphs.single ⟨beside (.binary [255]), []⟩
    have left := outcome.left
    rw [before] at left
    obtain ⟨result, -⟩ := left (by simp [free, cost?_secondFile]) ⟨_, []⟩ rfl
    have usable : [firstFile, secondFile].filter (fun file =>
        (graphIn? (beside (.binary [255])) file).isSome) = [secondFile] := by
      simp [noGraph, graphIn?_secondFile]
    have others : [firstFile, secondFile].filter (fun file =>
        (graphIn? (beside (.binary [255])) file).isNone) = [firstFile] := by
      simp [noGraph, graphIn?_secondFile]
    rw [ran, result, usable, others, on_besideGraphs]
    rfl

/-- A file with one integer of too many digits is neither texts nor a graph, but it is not left out:
it costs both corpora all that the other file holds. -/
theorem corpora_lost_longInteger :
    textsIn? (beside (.text (longInteger 4301))) firstFile = none ∧
      graphIn? (beside (.text (longInteger 4301))) firstFile = none ∧
      ((besideRecords.dedup true none 1).on ⟨beside (.text (longInteger 4301)), []⟩).1 =
        .error (.integerTooLong 4301) ∧
      ((besideGraphs.dedup none 1).on ⟨beside (.text (longInteger 4301)), []⟩).1 =
        .error (.integerTooLong 4301) := by
  obtain ⟨costs, missed⟩ := reading_longInteger (show digitLimit < 4301 by decide)
  have recordPool : poolFault? 1 besideRecords.binaries.length = none := by decide +kernel
  have graphPool : poolFault? 1 besideGraphs.groups.length = none := by decide +kernel
  refine ⟨by rw [textsIn?, missed, Option.bind_none], by rw [graphIn?, missed, Option.bind_none],
    ?_, ?_⟩
  · have records := besideRecords.takesTurns true none recordPool
    rw [binaries_beside] at records
    obtain ⟨turn, outcome, before, ran⟩ :=
      records.single ⟨beside (.text (longInteger 4301)), []⟩
    have lost := outcome.lost (.integerTooLong 4301)
    rw [filesOf_beside, before] at lost
    rw [ran, (lost (by simp [besideRecords, recordCost?, RecordFile.ofPath, costs])).1]
    rfl
  · have graphs := besideGraphs.takesTurns none graphPool
    obtain ⟨turn, outcome, before, ran⟩ := graphs.single ⟨beside (.text (longInteger 4301)), []⟩
    have lost := outcome.lost (.integerTooLong 4301)
    rw [before] at lost
    rw [ran, (lost (by simp [costs])).1]
    rfl

end FlowCorpus.Dedup
