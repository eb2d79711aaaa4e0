import FlowCorpus.Proofs.Batch.ForkJoin
import FlowCorpus.Proofs.Batch.Rerun

/-!
# Tasks step by step

The task of an input file is to read it, to make the graphs of its functions one after the other,
and to report in the end. The tasks of several files can take these steps in any relative order; to
take them file by file is one of the orders.
-/

set_option autoImplicit false

namespace FlowCorpus.Batch

open FlowCorpus.Assembly FlowCorpus.Program FlowCorpus.Storage

/-- How far the task of an input file has come. -/
inductive Task where
  | waiting (input : Path)
  | running (loaded : FunctionFile) (architecture : Option Architecture) (rest : List Function)
      (outcomes : List Outcome)
  | finished (report : Report)

namespace Task

/-- A step of the task of a file; a fault is reported and ends the task as one failure. -/
def guarded (input : Path) (job : Job Task) : Job Task := do
  match ← Job.attempt job with
  | .ok task => return task
  | .error fault => do
    Job.report (.fileFailed input.text fault)
    return .finished { failed := 1 }

def start (options : GraphOptions) (input : Path) : Job Task := do
  match ← loadFunctions input with
  | none => return .finished { failed := 1 }
  | some loaded =>
    let architecture ← chooseArchitecture options loaded
    if architecture.isNone && options.features.scheme.isCounting then
      return .finished { failed := loaded.malformed + loaded.functions.length }
    else return .running loaded architecture loaded.functions []

def reportOf (loaded : FunctionFile) (outcomes : List Outcome) : Report :=
  Report.merge { failed := loaded.malformed } (Report.ofOutcomes outcomes)

def step (options : GraphOptions) : Task → Job Task
  | .waiting input => guarded input (start options input)
  | .running loaded architecture (f :: rest) outcomes =>
    guarded loaded.path do
      let outcome ← attemptGraph options architecture loaded.path f
      return .running loaded architecture rest (outcomes ++ [outcome])
  | .running loaded _ [] outcomes => do
    let report := reportOf loaded outcomes
    Job.report (.fileProcessed loaded.path.text report.processed report.skipped report.failed)
    return .finished report
  | .finished report => return .finished report

end Task

/-- The tasks of a batch take their steps in any order, until all of them have finished. -/
inductive Interleaved (options : GraphOptions) :
    List Task → Workspace → List Report → Workspace → Prop where
  | finished (reports : List Report) (w : Workspace) :
      Interleaved options (reports.map .finished) w reports w
  | step {before after : List Task} {task next : Task} {w middle last : Workspace}
      {reports : List Report} (stepped : (task.step options).on w = (.ok next, middle))
      (others : Interleaved options (before ++ next :: after) middle reports last) :
      Interleaved options (before ++ task :: after) w reports last

namespace Task

variable {options : GraphOptions}

/-! ## What a step does to the tree -/

def started (options : GraphOptions) : Except Fault (Option FunctionFile) → Task
  | .error _ | .ok none => .finished { failed := 1 }
  | .ok (some loaded) =>
    let architecture := options.architecture.or loaded.architecture
    if architecture.isNone && options.features.scheme.isCounting then
      .finished { failed := loaded.malformed + loaded.functions.length }
    else .running loaded architecture loaded.functions []

def advanced (loaded : FunctionFile) (architecture : Option Architecture) (rest : List Function)
    (outcomes : List Outcome) : Except Fault Outcome → Task
  | .error _ => .finished { failed := 1 }
  | .ok outcome => .running loaded architecture rest (outcomes ++ [outcome])

def next (options : GraphOptions) (task : Task) (tree : Tree) : Task × Tree :=
  match task with
  | .waiting input => (started options (functionsFrom input (tree.readText input)), tree)
  | .running loaded architecture (f :: rest) outcomes =>
    let drawn := tryGraph options architecture (inputStem loaded.path) f tree
    (advanced loaded architecture rest outcomes drawn.1, drawn.2)
  | .running loaded _ [] outcomes => (.finished (reportOf loaded outcomes), tree)
  | .finished report => (.finished report, tree)

def settled : Except Fault Task → Task
  | .ok task => task
  | .error _ => .finished { failed := 1 }

theorem acts_guarded {job : Job Task} {action : Tree → Except Fault Task × Tree}
    (acts : job.Acts action) (input : Path) :
    (guarded input job).Acts fun tree => (.ok (settled (action tree).1), (action tree).2) := by
  intro w
  rcases acted : action w.tree with ⟨outcome, tree⟩
  obtain ⟨later, ran, same⟩ := acts.exists_on acted
  unfold guarded
  rw [Job.on_bind, Job.on_attempt, ran]
  subst same
  dsimp only
  rw [acted]
  cases outcome <;> rfl

theorem answers_start (options : GraphOptions) (input : Path) :
    (guarded input (start options input)).Acts fun tree =>
      (.ok (started options (functionsFrom input (tree.readText input))), tree) := by
  have chosen (architecture : Option Architecture) (loaded : FunctionFile) :
      (if architecture.isNone && options.features.scheme.isCounting then
        return .finished { failed := loaded.malformed + loaded.functions.length }
      else return .running loaded architecture loaded.functions [] : Job Task).Answers fun _ =>
        .ok (if architecture.isNone && options.features.scheme.isCounting then
          .finished { failed := loaded.malformed + loaded.functions.length }
        else .running loaded architecture loaded.functions []) := by
    cases architecture.isNone && options.features.scheme.isCounting <;> exact fun _ => rfl
  have further (found : Option FunctionFile) :
      (match found with
        | none => return .finished { failed := 1 }
        | some loaded => do
          let architecture ← chooseArchitecture options loaded
          if architecture.isNone && options.features.scheme.isCounting then
            return .finished { failed := loaded.malformed + loaded.functions.length }
          else return .running loaded architecture loaded.functions [] : Job Task).Answers fun _ =>
        .ok (started options (.ok found)) := by
    cases found with
    | none => exact fun _ => rfl
    | some loaded =>
        exact (answers_chooseArchitecture options loaded).bind fun architecture =>
          chosen architecture loaded
  refine (acts_guarded ((answers_loadFunctions input).bind further) input).congr fun tree => ?_
  rcases functionsFrom input (tree.readText input) with _ | _ <;> rfl

theorem acts_step (options : GraphOptions) (task : Task) :
    (task.step options).Acts fun tree =>
      (.ok (task.next options tree).1, (task.next options tree).2) := by
  cases task with
  | waiting input => exact answers_start options input
  | finished report => exact fun _ => rfl
  | running loaded architecture rest outcomes =>
      cases rest with
      | nil => exact fun _ => rfl
      | cons f rest =>
          have further (outcome : Outcome) : Job.Answers
              (pure (Task.running loaded architecture rest (outcomes ++ [outcome])))
              fun _ => .ok (.running loaded architecture rest (outcomes ++ [outcome])) :=
            fun _ => rfl
          have drawn := (acts_attemptGraph options architecture loaded.path f).finish further
          refine (acts_guarded drawn loaded.path).congr fun tree => ?_
          dsimp only [next]
          cases (tryGraph options architecture (inputStem loaded.path) f tree).1 <;> rfl

/-! ## Tasks alone -/

def alone (options : GraphOptions) (task : Task) (tree : Tree) : Report × Tree :=
  match task with
  | .waiting input =>
    contained (withRead (drawGraphs options) (functionsFrom input (tree.readText input)) tree)
  | .running loaded architecture rest outcomes =>
    let drawn := Tree.inTurn (tryGraph options architecture (inputStem loaded.path)) rest tree
    contained (drawn.1.map fun more => reportOf loaded (outcomes ++ more), drawn.2)
  | .finished report => (report, tree)

theorem alone_next (options : GraphOptions) (task : Task) (tree : Tree) :
    (task.next options tree).1.alone options (task.next options tree).2 =
      task.alone options tree := by
  cases task with
  | finished report => rfl
  | waiting input =>
      dsimp only [next, alone]
      rcases functionsFrom input (tree.readText input) with _ | _ | loaded
      · rfl
      · rfl
      · dsimp only [started, withRead, drawGraphs]
        by_cases unknown : ((options.architecture.or loaded.architecture).isNone &&
            options.features.scheme.isCounting) = true
        · rw [if_pos unknown, if_pos unknown]
          rfl
        · rw [if_neg unknown, if_neg unknown]
          rfl
  | running loaded architecture rest outcomes =>
      cases rest with
      | nil => simp [next, alone, Tree.inTurn, Except.map, contained]
      | cons f rest =>
          dsimp only [next, alone]
          rcases drawn : tryGraph options architecture (inputStem loaded.path) f tree
            with ⟨_ | outcome, later⟩
          · rw [Tree.inTurn_cons_error drawn]
            rfl
          · rw [Tree.inTurn_cons_ok drawn]
            dsimp only [advanced, alone]
            cases (Tree.inTurn (tryGraph options architecture (inputStem loaded.path)) rest
              later).1 with
            | error fault => rfl
            | ok more => simp [Except.map, contained]

theorem extends_alone (options : GraphOptions) (task : Task) (tree : Tree) :
    Tree.Extends tree (task.alone options tree).2 := by
  have drawing (architecture : Option Architecture) (stem : String) (functions : List Function) :
      Tree.Extends tree (Tree.inTurn (tryGraph options architecture stem) functions tree).2 :=
    Tree.inTurn_keeps
      (fun f _ tree before => before.trans
        ((repeatable_tryGraph options architecture stem f).extended tree)) (.refl tree)
  cases task with
  | finished report => exact .refl tree
  | running loaded architecture rest outcomes =>
      unfold alone
      rw [Generator.tree_contained]
      exact drawing _ _ _
  | waiting input =>
      unfold alone
      rw [Generator.tree_contained]
      rcases functionsFrom input (tree.readText input) with _ | _ | loaded
      · exact .refl tree
      · exact .refl tree
      · dsimp only [withRead, drawGraphs]
        split
        · exact .refl tree
        · exact drawing _ _ _

/-! ## File by file -/

def Ahead (options : GraphOptions) (before after : List Task) (task : Task) (w : Workspace) :
    Prop :=
  ∃ later : Workspace, later.tree = (task.alone options w.tree).2 ∧ ∀ {reports last},
    Interleaved options (before ++ .finished (task.alone options w.tree).1 :: after) later reports
      last → Interleaved options (before ++ task :: after) w reports last

variable {before after : List Task} {w : Workspace}

theorem ahead_of_next {task : Task}
    (further : ∀ middle : Workspace, middle.tree = (task.next options w.tree).2 →
      Ahead options before after (task.next options w.tree).1 middle) :
    Ahead options before after task w := by
  obtain ⟨middle, stepped, left⟩ := (acts_step options task).exists_on (w := w) rfl
  obtain ⟨later, same, others⟩ := further middle left
  rw [left, alone_next] at same others
  exact ⟨later, same, fun run => .step stepped (others run)⟩

theorem ahead_finished (report : Report) : Ahead options before after (.finished report) w :=
  ⟨w, rfl, id⟩

theorem ahead_running (loaded : FunctionFile) (architecture : Option Architecture)
    (rest : List Function) (outcomes : List Outcome) :
    Ahead options before after (.running loaded architecture rest outcomes) w := by
  induction rest generalizing outcomes w with
  | nil => exact ahead_of_next fun middle _ => ahead_finished _
  | cons f rest ih =>
      refine ahead_of_next fun middle _ => ?_
      dsimp only [next]
      cases (tryGraph options architecture (inputStem loaded.path) f w.tree).1 with
      | error fault => exact ahead_finished _
      | ok outcome => exact ih _

theorem ahead (options : GraphOptions) (before after : List Task) (task : Task) (w : Workspace) :
    Ahead options before after task w := by
  cases task with
  | finished report => exact ahead_finished report
  | running loaded architecture rest outcomes => exact ahead_running _ _ _ _
  | waiting input =>
      refine ahead_of_next fun middle _ => ?_
      dsimp only [next]
      rcases functionsFrom input (w.tree.readText input) with _ | _ | loaded
      · exact ahead_finished _
      · exact ahead_finished _
      · dsimp only [started]
        split
        · exact ahead_finished _
        · exact ahead_running _ _ _ _

end Task

variable {options : GraphOptions}

theorem interleaved_of_ran {inputs : List Path} {reports : List Report} {tree final : Tree}
    (ran : Ran (graphsOfFile options) tree inputs reports final) (before : List Report)
    {w : Workspace} (same : w.tree = tree) :
    ∃ last, last.tree = final ∧
      Interleaved options (before.map .finished ++ inputs.map .waiting) w (before ++ reports)
        last := by
  induction ran generalizing before w with
  | nil =>
      refine ⟨w, same, ?_⟩
      rw [List.map_nil, List.append_nil, List.append_nil]
      exact .finished before w
  | @cons start middle input report inputs reports final first others ih =>
      obtain ⟨rfl, left⟩ : ((Task.waiting input).alone options start.tree).1 = report ∧
          ((Task.waiting input).alone options start.tree).2 = middle.tree := by
        have acted := (acts_graphsOfFile options input).of_on first
        exact (Prod.mk.inj acted).imp Except.ok.inj id
      obtain ⟨later, tree, ahead⟩ :=
        Task.ahead options (before.map .finished) (inputs.map .waiting) (.waiting input) w
      rw [same] at tree ahead
      obtain ⟨last, final, run⟩ := ih (before ++ [_]) (tree.trans left)
      refine ⟨last, final, ahead ?_⟩
      simpa only [List.map_append, List.map_cons, List.map_nil, List.append_assoc,
        List.singleton_append] using run

/-- A batch that goes file by file has a report, and takes its steps in one of the orders. -/
theorem interleaved_inTurn (options : GraphOptions) (inputs : List Path) (w : Workspace) :
    ∃ reports later last,
      (graphsOfFiles options 1 inputs).on w = (.ok (Report.sum reports), later) ∧
      Interleaved options (inputs.map .waiting) w reports last ∧ last.tree = later.tree := by
  have each (input : Path) (w : Workspace) :
      ∃ report later, (graphsOfFile options input).on w = (.ok report, later) := by
    obtain ⟨later, ran, -⟩ := (acts_graphsOfFile options input).exists_on (w := w) rfl
    exact ⟨_, later, ran⟩
  obtain ⟨reports, later, joined⟩ := forkJoin_ok each inputs w
  obtain ⟨last, same, run⟩ := interleaved_of_ran (ran_of_forkJoin joined) [] rfl
  refine ⟨reports, later, last, ?_, run, same⟩
  unfold graphsOfFiles
  rw [Job.on_bind_of_ok joined]
  rfl

end FlowCorpus.Batch
