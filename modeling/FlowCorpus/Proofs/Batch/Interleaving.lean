import FlowCorpus.Proofs.Batch.Naming
import FlowCorpus.Proofs.Batch.Tasks
import FlowCorpus.Proofs.Storage.Preparation

/-!
# Tasks in any order

The tasks of files with different stems share nothing but the output directory. Whatever the order
of their steps, they leave the same tree and report the same as file by file, as long as every
output is found, or not, alike before the output directory is made and after it.
-/

set_option autoImplicit false

namespace FlowCorpus.Batch

open FlowCorpus.Assembly FlowCorpus.Feature FlowCorpus.Program FlowCorpus.Storage

/-! ## Outputs below a common directory -/

section

variable {within : Location → Prop} {kind : Entry → Bool} {path directory : Path}
  {tree other base : Tree} {name last : String} {drawn : Drawn}

theorem deliver_agree (agree : Tree.Agree within tree other)
    (covers : Tree.Covers within tree path) (drawn : Drawn) :
    (deliver path drawn other).1 = (deliver path drawn tree).1 ∧
      Tree.Agree within (deliver path drawn tree).2 (deliver path drawn other).2 := by
  rcases drawn with fault | _ | text
  · exact ⟨rfl, agree⟩
  · exact ⟨rfl, agree⟩
  · obtain ⟨same, left⟩ := agree.place covers text
    rw [deliver_some, deliver_some]
    exact ⟨congrArg (Except.map _) same, left⟩

theorem produce_agree (agree : Tree.Agree within tree other)
    (covers : Tree.Covers within tree path) (drawn : Drawn) :
    (produce kind path drawn other).1 = (produce kind path drawn tree).1 ∧
      Tree.Agree within (produce kind path drawn tree).2 (produce kind path drawn other).2 := by
  unfold produce
  rw [agree.test covers kind]
  rcases tree.test kind path with fault | _ | _
  · exact ⟨rfl, agree⟩
  · exact deliver_agree agree covers drawn
  · exact ⟨rfl, agree⟩

theorem changes_produce (covers : Tree.Covers within tree path) (drawn : Drawn) :
    Tree.Changes within tree (produce kind path drawn tree).2 := by
  unfold produce
  rcases tree.test kind path with fault | _ | _
  · exact .refl _ tree
  · rcases drawn with fault | _ | text
    · exact .refl _ tree
    · exact .refl _ tree
    · dsimp only
      rw [deliver_some]
      exact Tree.changes_place covers text
  · exact .refl _ tree

theorem produce_barred (barred : tree.Barred directory) (drawn : Drawn) :
    (produce kind (Tree.twoBelow directory name last) drawn tree).2 = tree := by
  unfold produce
  rcases tree.test kind (Tree.twoBelow directory name last) with fault | _ | _
  · rfl
  · rcases drawn with fault | _ | text
    · rfl
    · rfl
    · obtain ⟨fault, failed⟩ := Tree.place_of_barred barred name last text
      dsimp only
      rw [deliver_some, failed]
  · rfl

/-- An output below a common directory is made there alone, if faults of the tree count alike. -/
theorem local_produce {α : Type} (count : Except Fault Production → α)
    (ready : base.Ready directory (Tree.twoBelow directory name last)) (down : name ≠ "..")
    (further : last ≠ "..") (text : Except Fault (Option String))
    (alike : ∀ fault again, Tree.IsStoreFault fault → Tree.IsStoreFault again →
      count (.error fault) = count (.error again)) :
    Tree.Local base directory name fun tree =>
      let produced := produce Entry.isFile (Tree.twoBelow directory name last)
        (text.map (Option.map .ok)) tree
      (count produced.1, produced.2) where
  keeps tree kept :=
    produce_spares (fun _ => rfl) kept kept.extends (fun hidden => ready.unhidden hidden) rfl
  extended tree _ := extends_produce _ _ _ tree
  changes tree kept :=
    changes_produce ((Tree.covers_region down further).of_current kept.current) _
  barred tree _ barred := produce_barred barred _
  same tree other kept _ agree :=
    (produce_agree agree ((Tree.covers_region down further).of_current kept.current) _).imp
      (congrArg count) id
  first unprepared := by
    have tested := ready.isFile_ensured
    unfold Tree.isFile at tested
    dsimp only
    unfold produce
    rw [tested]
    rcases base.test Entry.isFile (Tree.twoBelow directory name last) with fault | _ | _
    · exact .inl ⟨rfl, rfl⟩
    · rcases text with fault | _ | s
      · exact .inl ⟨rfl, rfl⟩
      · exact .inl ⟨rfl, rfl⟩
      · simp only [Except.map, Option.map_some, deliver_some]
        by_cases unusable : Tree.Unusable ⟨directory.root, directory.names ++ [name]⟩
        · -- No directory is made for a path that no tree can locate.
          obtain ⟨fault, failed⟩ := Tree.place_of_unusable unusable last base (.ok s)
          obtain ⟨again, after⟩ := Tree.place_of_unusable unusable last
            (base.ensured directory).2 (.ok s)
          have counted := alike again fault (Tree.place_error after) (Tree.place_error failed)
          rw [failed, after]
          exact .inl ⟨rfl, congrArg (·, _) counted⟩
        · rcases Tree.place_prepared unprepared unusable last (.ok s)
            with same | ⟨fault, again, failed, after⟩
          · exact .inr (by rw [same])
          · have counted := alike again fault (Tree.place_error after) (Tree.place_error failed)
            rw [failed, after]
            exact .inr (congrArg (·, _) counted)
    · exact .inl ⟨rfl, rfl⟩

end

/-! ## Steps of tasks -/

def graphResult : Except Fault Production → Except Fault Outcome
  | .ok production => .ok (graphOutcome production)
  | .error fault => if fault.isFunctionFailure then .ok .failed else .error fault

def graphsName (options : GraphOptions) (input : Path) : String :=
  inputStem input ++ "-" ++ options.features.scheme.name

/-- The graph of a function goes to a file in the directory for the input, and is found there, or
not, alike before the output directory is made and after it. -/
structure Drawable (options : GraphOptions) (base : Tree) (input : Path) (f : Function) : Prop where
  plain : '/' ∉ f.name.toList
  ready : base.Ready options.directory
    (graphPath options.directory (inputStem input) options.features.scheme f.name)

variable {options : GraphOptions} {base tree : Tree} {input : Path} {f : Function}

theorem graphPath_eq_twoBelow {directory : Path} {stem name : String} {scheme : Scheme}
    (slashless : '/' ∉ stem.toList) (plain : '/' ∉ name.toList) :
    graphPath directory stem scheme name =
      Tree.twoBelow directory (stem ++ "-" ++ scheme.name)
        (stem ++ "-" ++ safeName name ++ ".json") := by
  unfold graphPath
  rw [(isName_scheme slashless scheme).below, (isName_graph slashless plain).below]
  rfl

theorem local_tryGraph (slashless : '/' ∉ (inputStem input).toList)
    (drawable : Drawable options base input f) (architecture : Option Architecture) :
    Tree.Local base options.directory (graphsName options input)
      (tryGraph options architecture (inputStem input) f) := by
  obtain ⟨plain, ready⟩ := drawable
  rw [graphPath_eq_twoBelow slashless plain] at ready
  have made := local_produce graphResult ready (isName_scheme slashless _).noDoubleDot
    (isName_graph slashless plain).noDoubleDot (graphText options architecture f)
    fun fault again one other => by
      dsimp only [graphResult]
      rw [one.isFunctionFailure, other.isFunctionFailure]
      rfl
  rw [← graphPath_eq_twoBelow slashless plain] at made
  have same : tryGraph options architecture (inputStem input) f = fun tree =>
      let drawn := drawGraph options architecture (inputStem input) f tree
      (graphResult drawn.1, drawn.2) := by
    funext tree
    unfold tryGraph
    rcases drawGraph options architecture (inputStem input) f tree with ⟨_ | _, later⟩ <;> rfl
  rw [same]
  exact made

/-- A task is the one for an input file that is there, and has only functions left whose graphs can
be drawn. -/
def Task.Suits (options : GraphOptions) (base : Tree) (input : Path) : Task → Prop
  | .waiting path => path = input ∧ base.isFile input = .ok true ∧
      ∀ loaded, functionsFrom input (base.readText input) = .ok (some loaded) →
        ∀ f ∈ loaded.functions, Drawable options base input f
  | .running loaded _ rest _ => loaded.path = input ∧ ∀ f ∈ rest, Drawable options base input f
  | .finished _ => True

theorem suits_next {task : Task} (suits : task.Suits options base input)
    (kept : Tree.Keeps base tree) : (task.next options tree).1.Suits options base input := by
  cases task with
  | finished report => exact True.intro
  | waiting path =>
      obtain ⟨rfl, there, drawable⟩ := suits
      dsimp only [Task.next]
      rw [kept.readText there]
      rcases found : functionsFrom path (base.readText path) with _ | _ | loaded
      · exact True.intro
      · exact True.intro
      · dsimp only [Task.started]
        split
        · exact True.intro
        · exact ⟨Generator.path_of_functionsFrom found, drawable loaded found⟩
  | running loaded architecture rest outcomes =>
      cases rest with
      | nil => exact True.intro
      | cons f rest =>
          dsimp only [Task.Suits] at suits
          dsimp only [Task.next]
          cases (tryGraph options architecture (inputStem loaded.path) f tree).1 with
          | error fault => exact True.intro
          | ok outcome =>
              dsimp only [Task.advanced]
              exact ⟨suits.1, fun g member => suits.2 g (List.mem_cons_of_mem f member)⟩

theorem local_next {task : Task} (slashless : '/' ∉ (inputStem input).toList)
    (suits : task.Suits options base input) :
    Tree.Local base options.directory (graphsName options input) (task.next options) := by
  cases task with
  | finished report => exact .still (.finished report) fun _ _ => rfl
  | waiting path =>
      obtain ⟨rfl, there, -⟩ := suits
      refine .still (Task.started options (functionsFrom path (base.readText path))) ?_
      intro tree kept
      dsimp only [Task.next]
      rw [kept.readText there]
  | running loaded architecture rest outcomes =>
      cases rest with
      | nil => exact .still (.finished (Task.reportOf loaded outcomes)) fun _ _ => rfl
      | cons f rest =>
          obtain ⟨rfl, drawable⟩ := suits
          exact (local_tryGraph slashless (drawable f List.mem_cons_self) architecture).map
            (Task.advanced loaded architecture rest outcomes)

/-! ## Stages of a batch -/

def furnished (options : GraphOptions) (base : Tree) : Tree :=
  (base.ensured options.directory).2

theorem keeps_furnished (options : GraphOptions) (base : Tree) :
    Tree.Keeps base (furnished options base) :=
  Tree.grows_ensured rfl

theorem prepared_furnished (options : GraphOptions) (base : Tree) :
    Tree.Prepared (furnished options base) options.directory :=
  base.prepared_ensured options.directory

def footprint (options : GraphOptions) (base : Tree) (input : Path) : Location → Prop :=
  Tree.Region base options.directory (graphsName options input)

/-- A task has come as far as it does alone, in a tree with the output directory. -/
structure Follows (options : GraphOptions) (base tree : Tree) (input : Path) (task : Task) :
    Prop where
  suits : task.Suits options base input
  twin : ∃ own, Tree.Keeps base own ∧ Tree.Agree (footprint options base input) own tree ∧
    task.alone options own = (Task.waiting input).alone options (furnished options base)

structure Underway (options : GraphOptions) (base : Tree) (inputs : List Path) (tasks : List Task)
    (tree : Tree) : Prop where
  keeps : Tree.Keeps base tree
  prepared : tree.Prepared options.directory
  follows : List.Forall₂ (Follows options base tree) inputs tasks
  outside : ∀ location, (∀ input ∈ inputs, ¬ footprint options base input location) →
    tree.entry? location = Tree.entry? (furnished options base) location
  begun : base.Prepared options.directory ∨
    ∃ input ∈ inputs, ((Task.waiting input).alone options base).2 ≠ base

/-- A task has had nothing to do yet, with or without the output directory. -/
structure Still (options : GraphOptions) (base : Tree) (input : Path) (task : Task) : Prop where
  suits : task.Suits options base input
  before : task.alone options base = (Task.waiting input).alone options base
  after : task.alone options (furnished options base) =
    (Task.waiting input).alone options (furnished options base)

/-- Tasks before the output directory is made, or after it was. -/
inductive Stage (options : GraphOptions) (base : Tree) (inputs : List Path) :
    List Task → Tree → Prop where
  | still {tasks : List Task} (unprepared : ¬ base.Prepared options.directory)
      (each : List.Forall₂ (Still options base) inputs tasks) : Stage options base inputs tasks base
  | underway {tasks : List Task} {tree : Tree}
      (underway : Underway options base inputs tasks tree) : Stage options base inputs tasks tree

theorem forall₂_append_cons {α β : Type} {relation : α → β → Prop} {items : List α}
    {before after : List β} {b : β} (related : List.Forall₂ relation items (before ++ b :: after)) :
    ∃ front a back, items = front ++ a :: back ∧ List.Forall₂ relation front before ∧
      relation a b ∧ List.Forall₂ relation back after := by
  induction before generalizing items with
  | nil =>
      obtain ⟨a, back, here, behind, rfl⟩ := List.forall₂_cons_right_iff.mp related
      exact ⟨[], a, back, rfl, .nil, here, behind⟩
  | cons first rest ih =>
      obtain ⟨c, others, one, further, rfl⟩ := List.forall₂_cons_right_iff.mp related
      obtain ⟨front, a, back, rfl, left, here, behind⟩ := ih further
      exact ⟨c :: front, a, back, rfl, .cons one left, here, behind⟩

/-- One pair of two related lists is replaced, the others stay related in another way. -/
theorem forall₂_replace {relation : Path → Task → Prop} {inputs : List Path}
    {before after : List Task} {task : Task} (distinct : (inputs.map inputStem).Nodup)
    (related : List.Forall₂ relation inputs (before ++ task :: after)) :
    ∃ input ∈ inputs, relation input task ∧ ∀ {next : Path → Task → Prop} {later : Task},
      (∀ other task, inputStem other ≠ inputStem input → relation other task → next other task) →
        next input later → List.Forall₂ next inputs (before ++ later :: after) := by
  obtain ⟨front, input, back, rfl, left, here, behind⟩ := forall₂_append_cons related
  refine ⟨input, by simp, here, fun {next later} others replaced => ?_⟩
  rw [List.map_append, List.map_cons, List.nodup_middle, List.nodup_cons] at distinct
  have apart : ∀ other ∈ front ++ back, inputStem other ≠ inputStem input := by
    intro other member same
    refine distinct.1 ?_
    rw [← List.map_append, ← same]
    exact List.mem_map_of_mem member
  have moved {items : List Path} {tasks : List Task} (part : items ⊆ front ++ back)
      (related : List.Forall₂ relation items tasks) : List.Forall₂ next items tasks :=
    ((List.forall₂_and_left _ _).mpr ⟨fun other member => apart other (part member), related⟩).imp
      fun other task both => others other task both.1 both.2
  exact List.rel_append (moved (List.subset_append_left front back) left)
    (.cons replaced (moved (List.subset_append_right front back) behind))

theorem graphsName_ne {other : Path} (distinct : inputStem other ≠ inputStem input) :
    graphsName options other ≠ graphsName options input := by
  unfold graphsName
  simpa [String.append_left_inj] using distinct

section

variable {inputs : List Path} {before after : List Task} {task : Task}
  (distinct : (inputs.map inputStem).Nodup)
  (slashless : ∀ input ∈ inputs, '/' ∉ (inputStem input).toList)

include distinct slashless

theorem Underway.step (underway : Underway options base inputs (before ++ task :: after) tree) :
    Underway options base inputs (before ++ (task.next options tree).1 :: after)
      (task.next options tree).2 := by
  obtain ⟨input, member, here, replace⟩ := forall₂_replace distinct underway.follows
  have isLocal := local_next (slashless input member) here.suits
  exact {
    keeps := isLocal.keeps tree underway.keeps
    prepared := underway.prepared.extend (isLocal.extended tree underway.keeps)
    begun := underway.begun
    outside := fun location none =>
      ((isLocal.changes tree underway.keeps).entries location (none input member)).trans
        (underway.outside location none)
    follows := by
      refine replace (fun other task apart follows => ?_) ?_
      -- The other tasks keep the trees that they would have alone; this one takes its step there.
      · obtain ⟨own, kept, agree, alone⟩ := follows.twin
        have unseen := isLocal.apart underway.keeps underway.prepared (graphsName_ne apart)
        exact ⟨follows.suits, own, kept, agree.trans unseen, alone⟩
      · obtain ⟨own, kept, agree, alone⟩ := here.twin
        obtain ⟨same, left⟩ := isLocal.same own tree kept underway.keeps agree
        refine ⟨suits_next here.suits underway.keeps, _, isLocal.keeps own kept, left, ?_⟩
        rw [same, Task.alone_next]
        exact alone }

/-- The first step that has something to do makes the output directory. -/
theorem stage_step_still (unprepared : ¬ base.Prepared options.directory)
    (each : List.Forall₂ (Still options base) inputs (before ++ task :: after)) :
    Stage options base inputs (before ++ (task.next options base).1 :: after)
      (task.next options base).2 := by
  obtain ⟨input, member, here, replace⟩ := forall₂_replace distinct each
  have isLocal := local_next (slashless input member) here.suits
  have suits := suits_next here.suits (.refl _ base)
  have alone := task.alone_next options base
  have further := task.alone_next options (furnished options base)
  rcases isLocal.first unprepared with ⟨idle, after⟩ | same
  -- Nothing was done, and nothing would have been with the output directory there.
  · change task.next options (furnished options base) = _ at after
    rw [idle] at alone ⊢
    rw [after] at further
    exact .still unprepared (replace (fun _ _ _ still => still)
      ⟨suits, alone.trans here.before, further.trans here.after⟩)
  -- The step does what it would have done after the output directory was made, so that from now on
  -- every task is where it would be in the furnished tree.
  · change task.next options (furnished options base) = _ at same
    rw [same] at further
    have kept := keeps_furnished options base
    have prepared : (task.next options base).2.Prepared options.directory := by
      have extended := isLocal.extended _ kept
      rw [same] at extended
      exact (prepared_furnished options base).extend extended
    refine .underway {
      keeps := isLocal.keeps base (.refl _ base)
      prepared := prepared
      outside := ?outside
      follows := replace ?others
        ⟨suits, _, isLocal.keeps base (.refl _ base), .refl _ _, further.trans here.after⟩
      begun := .inr ⟨input, member, fun idle => unprepared ?begun⟩ }
    case outside =>
      intro location none
      have changes := isLocal.changes _ kept
      rw [same] at changes
      exact changes.entries location (none input member)
    case others =>
      intro other task apart still
      have unseen := isLocal.apart kept (prepared_furnished options base) (graphsName_ne apart)
      rw [same] at unseen
      exact ⟨still.suits, furnished options base, kept, unseen, still.after⟩
    case begun =>
      -- The directory that was made stays, and alone the task makes it as well.
      rw [← here.before, ← alone] at idle
      have extended := Task.extends_alone options (task.next options base).1
        (task.next options base).2
      rw [idle] at extended
      exact prepared.extend extended

theorem Stage.step (stage : Stage options base inputs (before ++ task :: after) tree) :
    Stage options base inputs (before ++ (task.next options tree).1 :: after)
      (task.next options tree).2 := by
  cases stage with
  | still unprepared each => exact stage_step_still distinct slashless unprepared each
  | underway underway => exact .underway (underway.step distinct slashless)

/-- Interleaved tasks go through stages up to the end. -/
theorem Stage.run {tasks : List Task} {w last : Workspace} {reports : List Report}
    (run : Interleaved options tasks w reports last)
    (stage : Stage options base inputs tasks w.tree) :
    Stage options base inputs (reports.map .finished) last.tree := by
  induction run with
  | finished reports w => exact stage
  | @step before after task next w middle last reports stepped _ ih =>
      have acted := (Task.acts_step options task).of_on stepped
      obtain ⟨result, left⟩ := Prod.mk.inj acted
      have further := stage.step distinct slashless
      rw [Except.ok.inj result, left] at further
      exact ih further

end

/-! ## The end of a batch -/

variable {inputs : List Path} {reports others : List Report} {other : Tree}

theorem stage_waiting
    (suits : ∀ input ∈ inputs, (Task.waiting input).Suits options base input) :
    Stage options base inputs (inputs.map .waiting) base := by
  by_cases prepared : base.Prepared options.directory
  · refine .underway ⟨.refl _ base, prepared, ?_, fun location _ => ?_, .inl prepared⟩
    · refine List.forall₂_map_right_iff.mpr (List.forall₂_same.mpr fun input member => ?_)
      exact ⟨suits input member, base, .refl _ base, .refl _ base, by
        rw [furnished, prepared.ensured]⟩
    · rw [furnished, prepared.ensured]
  · refine .still prepared (List.forall₂_map_right_iff.mpr (List.forall₂_same.mpr ?_))
    exact fun input member => ⟨suits input member, rfl, rfl⟩

/-- In the end every task has the report that it has alone. -/
theorem Stage.reports_eq (stage : Stage options base inputs (reports.map .finished) tree) :
    reports = inputs.map fun input =>
      ((Task.waiting input).alone options (furnished options base)).1 := by
  have related : List.Forall₂
      (fun input report =>
        ((Task.waiting input).alone options (furnished options base)).1 = report)
      inputs reports := by
    cases stage with
    | still unprepared each =>
        refine (List.forall₂_map_right_iff.mp each).imp fun input report still => ?_
        rw [← still.after]
        rfl
    | underway underway =>
        refine (List.forall₂_map_right_iff.mp underway.follows).imp fun input report follows => ?_
        obtain ⟨own, -, -, alone⟩ := follows.twin
        rw [← alone]
        rfl
  have same := List.forall₂_map_left_iff.mpr related
  rw [List.forall₂_eq_eq_eq] at same
  exact same.symm

/-- Where the outputs for an input file are, a batch that was underway leaves what its task leaves
alone. -/
theorem Underway.agree (underway : Underway options base inputs (reports.map .finished) tree) :
    ∀ input ∈ inputs, Tree.Agree (footprint options base input)
      ((Task.waiting input).alone options (furnished options base)).2 tree := by
  refine Outcome.forall_of_forall₂ (List.forall₂_map_right_iff.mp underway.follows) ?_
  intro input report follows
  obtain ⟨own, -, agree, alone⟩ := follows.twin
  rw [← alone]
  exact agree

/-- Two batches that end have the same reports and leave trees with the same entries. -/
theorem Stage.unique (one : Stage options base inputs (reports.map .finished) tree)
    (two : Stage options base inputs (others.map .finished) other) :
    others = reports ∧ Tree.Alike tree other := by
  refine ⟨two.reports_eq.trans one.reports_eq.symm, ?_⟩
  -- A batch that had nothing to do is not one that had.
  have apart {reports : List Report} {others : List Task} {tree : Tree}
      (unprepared : ¬ base.Prepared options.directory)
      (each : List.Forall₂ (Still options base) inputs (reports.map .finished))
      (underway : Underway options base inputs others tree) : False := by
    rcases underway.begun with prepared | ⟨input, member, busy⟩
    · exact unprepared prepared
    · have idle : ∀ input ∈ inputs, ((Task.waiting input).alone options base).2 = base :=
        Outcome.forall_of_forall₂ (List.forall₂_map_right_iff.mp each) fun input report still => by
          rw [← still.before]
          rfl
      exact busy (idle input member)
  generalize finished : reports.map Task.finished = tasks at one
  generalize ended : others.map Task.finished = ends at two
  cases one with
  | still unprepared each =>
      cases two with
      | still _ _ => exact .refl _ base
      | underway underway =>
          subst finished
          exact (apart unprepared each underway).elim
  | underway first =>
      cases two with
      | still unprepared each =>
          subst ended
          exact (apart unprepared each first).elim
      | underway second =>
          subst finished ended
          refine ⟨second.keeps.current.trans first.keeps.current.symm, fun location _ => ?_⟩
          by_cases inside : ∃ input ∈ inputs, footprint options base input location
          · obtain ⟨input, member, here⟩ := inside
            rw [(first.agree input member).entries location here,
              (second.agree input member).entries location here]
          · have none : ∀ input ∈ inputs, ¬ footprint options base input location :=
              fun input member here => inside ⟨input, member, here⟩
            rw [first.outside location none, second.outside location none]

def Holds (w : Workspace) (input : Path) (f : Function) : Prop :=
  ∃ loaded, ((loadFunctions input).on w).1 = .ok (some loaded) ∧ f ∈ loaded.functions

/-- The tasks of files that are there, with different stems, leave the same tree and report the same
in whatever order they take their steps, if no function has a slash in its name and every output is
found, or not, alike before the output directory is made and after it. -/
theorem interleaved_eq_inTurn {w last : Workspace}
    (there : ∀ input ∈ inputs, w.tree.isFile input = .ok true)
    (plain : ∀ input ∈ inputs, '/' ∉ input.name.toList) (distinct : (inputs.map inputStem).Nodup)
    (drawable : ∀ input ∈ inputs, ∀ f, Holds w input f → Drawable options w.tree input f)
    (run : Interleaved options (inputs.map .waiting) w reports last) :
    ∃ later, (graphsOfFiles options 1 inputs).on w = (.ok (Report.sum reports), later) ∧
      later.tree.Alike last.tree := by
  have slashless (input : Path) (member : input ∈ inputs) : '/' ∉ (inputStem input).toList :=
    inputStem_plain (plain input member)
  have start : Stage options w.tree inputs (inputs.map .waiting) w.tree := by
    refine stage_waiting fun input member =>
      ⟨rfl, there input member, fun loaded found f inside => ?_⟩
    obtain ⟨later, loads, -⟩ := (answers_loadFunctions input).exists_on (w := w) rfl
    exact drawable input member f ⟨loaded, (congrArg Prod.fst loads).trans found, inside⟩
  obtain ⟨inOrder, later, final, joined, sequential, same⟩ := interleaved_inTurn options inputs w
  obtain ⟨reported, alike⟩ := (start.run distinct slashless sequential).unique
    (start.run distinct slashless run)
  rw [same] at alike
  rw [reported]
  exact ⟨later, joined, alike⟩

/-- In a proper tree, a graph below a directory without steps up can be drawn, if no name on the way
is too long. -/
theorem drawable_of_down (proper : base.IsProper)
    (down : ∀ name ∈ options.directory.names, name ≠ "..") (plain : '/' ∉ input.name.toList)
    (slashless : '/' ∉ f.name.toList)
    (fits : ∀ name ∈ (graphPath options.directory (inputStem input) options.features.scheme
      f.name).names, name.utf8ByteSize ≤ Tree.nameLimit) : Drawable options base input f where
  plain := slashless
  ready := by
    refine ⟨proper.not_hidden ?_, .inr fits⟩
    have one := (isName_scheme (inputStem_plain plain) options.features.scheme).noDoubleDot
    have two := (isName_graph (inputStem_plain plain) slashless).noDoubleDot
    rw [graphPath_eq_twoBelow (inputStem_plain plain) slashless]
    intro name member
    unfold Tree.twoBelow at member
    simp only [List.mem_append, List.mem_singleton] at member
    rcases member with (member | rfl) | rfl
    · exact down name member
    · exact one
    · exact two

/-- Of two files the second one can go first. -/
theorem interleaved_swapped (options : GraphOptions) (p q : Path) (w : Workspace) :
    let second := (Task.waiting q).alone options w.tree
    let first := (Task.waiting p).alone options second.2
    ∃ last, last.tree = first.2 ∧
      Interleaved options [.waiting p, .waiting q] w [first.1, second.1] last := by
  intro second first
  obtain ⟨middle, left, before⟩ := Task.ahead options [.waiting p] [] (.waiting q) w
  obtain ⟨last, final, after⟩ := Task.ahead options [] [.finished second.1] (.waiting p) middle
  rw [left] at final after
  exact ⟨last, final, before (after (.finished [first.1, second.1] last))⟩

def sharedWorkspace : Workspace where
  tree := { entries := [
    (["a.json"], .file (.text (twoBlocks "f"))),
    (["b.json"], .file (.text (twoBlocks "g"))),
    (["o"], .directory),
    (["o", "b-esil"], .directory),
    (["o", "b-esil", "b-g.json"], .file (.text "old"))] }

def sharedInputs : List Path := [⟨"", ["a.json"]⟩, ⟨"", ["b.json"]⟩]

theorem holds_shared {input : Path} (member : input ∈ sharedInputs) {f : Function}
    (held : Holds sharedWorkspace input f) : f.name = "f" ∨ f.name = "g" := by
  have names : ∀ input ∈ sharedInputs, ∃ name ∈ ["f", "g"],
      (functionsFrom input (sharedWorkspace.tree.readText input)).map
        (Option.map fun loaded => loaded.functions.map (·.name)) = .ok (some [name]) := by
    decide +kernel
  obtain ⟨loaded, found, inside⟩ := held
  obtain ⟨name, either, read⟩ := names input member
  obtain ⟨later, loads, -⟩ := (answers_loadFunctions input).exists_on (w := sharedWorkspace) rfl
  have same := (congrArg Prod.fst loads).symm.trans found
  dsimp only at same
  rw [same] at read
  have single : loaded.functions.map (·.name) = [name] := Option.some.inj (Except.ok.inj read)
  have one : f.name ∈ [name] := single ▸ List.mem_map_of_mem inside
  rw [List.mem_singleton.mp one]
  simpa using either

theorem interleaved_eq_inTurn_swapped :
    let options : GraphOptions :=
      { directory := ⟨"", ["new"]⟩, features := { scheme := .esil }, minBlocks := 1 }
    ∃ last later,
      Interleaved options (sharedInputs.map .waiting) sharedWorkspace
        [{ processed := 1 }, { processed := 1 }] last ∧
      (graphsOfFiles options 1 sharedInputs).on sharedWorkspace = (.ok { processed := 2 }, later) ∧
      later.tree.Alike last.tree := by
  intro options
  have proper : sharedWorkspace.tree.IsProper :=
    Tree.isProper_of_entries rfl (by decide) (by decide)
  have there : ∀ input ∈ sharedInputs, sharedWorkspace.tree.isFile input = .ok true := by
    decide +kernel
  have plain : ∀ input ∈ sharedInputs, '/' ∉ input.name.toList := by decide
  have distinct : (sharedInputs.map inputStem).Nodup := by decide +kernel
  have short : ∀ input ∈ sharedInputs, ∀ name ∈ ["f", "g"], ∀ part ∈
      (graphPath options.directory (inputStem input) options.features.scheme name).names,
      part.utf8ByteSize ≤ Tree.nameLimit := by
    decide +kernel
  have drawable (input : Path) (member : input ∈ sharedInputs) (f : Function)
      (held : Holds sharedWorkspace input f) : Drawable options sharedWorkspace.tree input f := by
    have named : f.name ∈ ["f", "g"] := by simpa using holds_shared member held
    refine drawable_of_down proper (by decide) (plain input member) ?_
      (short input member f.name named)
    rcases holds_shared member held with same | same <;> rw [same] <;> decide
  obtain ⟨last, -, run⟩ :=
    interleaved_swapped options ⟨"", ["a.json"]⟩ ⟨"", ["b.json"]⟩ sharedWorkspace
  have reported :
      let second := (Task.waiting ⟨"", ["b.json"]⟩).alone options sharedWorkspace.tree
      let first := (Task.waiting ⟨"", ["a.json"]⟩).alone options second.2
      second.1 = { processed := 1 } ∧ first.1 = { processed := 1 } := by
    decide +kernel
  obtain ⟨second, first⟩ := reported
  rw [first, second] at run
  obtain ⟨later, joined, alike⟩ := interleaved_eq_inTurn there plain distinct drawable run
  exact ⟨last, later, run, joined, alike⟩

/-- The graph that was there is kept file by file, and written over when the second file goes first:
the path to it leads through a directory that is not there yet. -/
theorem interleaved_overwrites :
    let options : GraphOptions :=
      { directory := ⟨"", ["m", "..", "o"]⟩, features := { scheme := .esil }, minBlocks := 1 }
    let graph : Location := ["o", "b-esil", "b-g.json"]
    (∀ input ∈ sharedInputs, sharedWorkspace.tree.isFile input = .ok true) ∧
      (sharedInputs.map inputStem).Nodup ∧
      (∀ input ∈ sharedInputs, ∀ f, Holds sharedWorkspace input f → '/' ∉ f.name.toList) ∧
      (((graphsOfFiles options 1 sharedInputs).on sharedWorkspace).1 =
          .ok { processed := 1, skipped := 1 } ∧
        Tree.entry? ((graphsOfFiles options 1 sharedInputs).on sharedWorkspace).2.tree graph =
          some (.file (.text "old"))) ∧
      ∃ last, Interleaved options (sharedInputs.map .waiting) sharedWorkspace
          [{ processed := 1 }, { processed := 1 }] last ∧
        last.tree.entry? graph ≠ some (.file (.text "old")) := by
  intro options graph
  refine ⟨by decide +kernel, by decide +kernel, fun input member f held => ?_, by decide +kernel,
    ?_⟩
  · rcases holds_shared member held with same | same <;> rw [same] <;> decide
  · obtain ⟨last, left, run⟩ :=
      interleaved_swapped options ⟨"", ["a.json"]⟩ ⟨"", ["b.json"]⟩ sharedWorkspace
    have made :
        let second := (Task.waiting ⟨"", ["b.json"]⟩).alone options sharedWorkspace.tree
        let first := (Task.waiting ⟨"", ["a.json"]⟩).alone options second.2
        second.1 = { processed := 1 } ∧ first.1 = { processed := 1 } ∧
          Tree.entry? first.2 graph ≠ some (.file (.text "old")) := by
      decide +kernel
    obtain ⟨second, first, replaced⟩ := made
    rw [first, second] at run
    rw [← left] at replaced
    exact ⟨last, run, replaced⟩

end FlowCorpus.Batch
