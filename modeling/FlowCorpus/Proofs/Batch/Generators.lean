import FlowCorpus.Proofs.Batch.Output

/-!
# Generators

What each generator makes of an input file, as outputs: its texts are found out from the text of
the input alone, and what was reported before has no part in it.
-/

set_option autoImplicit false

namespace FlowCorpus.Batch

open FlowCorpus.Assembly FlowCorpus.Exchange FlowCorpus.Feature FlowCorpus.Graph
open FlowCorpus.Json FlowCorpus.Program FlowCorpus.Storage

variable {α : Type}

/-! ## Reading -/

theorem aside_loadRecord (path : Path) (parse : Value → Except Fault α) (loaded : Loaded α)
    (number : Nat) (record : Value) : (loadRecord path parse loaded number record).Aside := by
  unfold loadRecord
  split
  · exact Job.aside_pure _
  · split
    · exact (Job.aside_report _).bind fun _ => Job.aside_pure _
    · exact Job.aside_throw _

theorem aside_loadLine (path : Path) (parse : Value → Except Fault α) (loaded : Loaded α)
    (number : Nat) (line : List Char) : (loadLine path parse loaded number line).Aside := by
  unfold loadLine
  split
  · exact Job.aside_pure _
  · split
    · exact aside_loadRecord path parse loaded number _
    · exact (Job.aside_report _).bind fun _ => Job.aside_pure _
    · exact Job.aside_throw _

theorem aside_loadList (path : Path) (parse : Value → Except Fault α) (s : List Char) :
    (loadList path parse s).Aside := by
  unfold loadList
  split
  · exact (Job.aside_foldlM (fun loaded (entry : Value × Nat) =>
      aside_loadRecord path parse loaded entry.2 entry.1) _ _).map _
  · exact (Job.aside_report _).bind fun _ => Job.aside_pure _
  · exact Job.aside_throw _

theorem aside_loadText (path : Path) (parse : Value → Except Fault α) (s : List Char) :
    (loadText path parse s).Aside := by
  unfold loadText
  dsimp only
  split
  · exact aside_loadList path parse _
  · exact (Job.aside_foldlM (fun loaded (entry : List Char × Nat) =>
      aside_loadLine path parse loaded entry.2 entry.1) _ _).map _

/-- The text of a file, unless reading it failed for the file store or for bytes that are no text.
-/
def textFrom : Except Fault String → Except Fault (Option String)
  | .ok s => .ok (some s)
  | .error fault =>
    match fault.kind with
    | .store _ | .decoding => .ok none
    | _ => .error fault

theorem answers_readReporting (path : Path) :
    (readReporting path).Answers fun tree => textFrom (tree.readText path) := by
  intro w
  unfold readReporting
  rw [Job.on_bind, Job.on_attempt, Job.on_ask]
  dsimp only
  cases w.tree.readText path with
  | ok s => rfl
  | error fault =>
      unfold textFrom
      dsimp only
      cases fault.kind <;> rfl

/-- The records of a file, given its text or the fault of reading it. -/
def recordsFrom (parse : Value → Except Fault α) (path : Path) (read : Except Fault String) :
    Except Fault (Option (Loaded α)) :=
  match textFrom read with
  | .error fault => .error fault
  | .ok none => .ok none
  | .ok (some s) => (loadText path parse s.toList).outcome

theorem answers_loadRecords (parse : Value → Except Fault α) (path : Path) :
    (loadRecords parse path).Answers fun tree => recordsFrom parse path (tree.readText path) := by
  refine ((answers_readReporting path).bind fun text => Job.Aside.answers ?_).congr fun tree => ?_
  · cases text with
    | none => exact Job.aside_pure none
    | some s => exact aside_loadText path parse s.toList
  · unfold recordsFrom
    dsimp only
    rcases textFrom (tree.readText path) with _ | _ | s <;> rfl

/-- The functions of a file, given its text or the fault of reading it. -/
def functionsFrom (path : Path) (read : Except Fault String) : Except Fault (Option FunctionFile) :=
  (recordsFrom Function.ofJson path read).map (Option.map (fileOf path))

theorem answers_loadFunctions (path : Path) :
    (loadFunctions path).Answers fun tree => functionsFrom path (tree.readText path) := by
  refine (answers_loadRecords Function.ofJson path).finish fun loaded => ?_
  cases loaded <;> exact fun _ => rfl

/-- A job that puts a text at a path and then reports that it was written. -/
theorem acts_written {β : Type} {put : Job Unit} {last : Unit → Job β} {path : Path}
    {text : Except Fault String} (puts : put.Acts fun tree => tree.place path text)
    (result : Production → β) (reports : (last ()).Answers fun _ => .ok (result .written)) :
    (put >>= last).Acts fun tree =>
      let produced := deliver path (.ok (some text)) tree
      (produced.1.map result, produced.2) := by
  refine (puts.finish fun _ => reports).congr fun tree => ?_
  dsimp only
  rw [deliver_some]
  cases (tree.place path text).1 <;> rfl

def flowText (options : GraphOptions) (architecture : Option Architecture) (f : Function)
    (flow : Flow) : Except Fault (Option String) :=
  match (nodeFeatures architecture options.features f flow).result with
  | .error fault => .error fault
  | .ok none => .ok none
  | .ok (some features) =>
    (Attributed.ofFeatures flow features options.features.scheme options.labels).result.map
      (Option.map fun graph => graph.toJson.render)

def graphText (options : GraphOptions) (architecture : Option Architecture) (f : Function) :
    Except Fault (Option String) :=
  match (Flow.buildReporting f options.minBlocks).result with
  | .error fault => .error fault
  | .ok none => .ok none
  | .ok (some flow) =>
    if flow.edges.isEmpty then .ok none else flowText options architecture f flow

def graphOutcome : Production → Outcome
  | .present => .skipped
  | .nothing => .skipped
  | .written => .processed

theorem acts_writeFlow (options : GraphOptions) (architecture : Option Architecture)
    (output : Path) (f : Function) (flow : Flow) :
    (writeFlow options architecture output f flow).Acts fun tree =>
      let produced := deliver output ((flowText options architecture f flow).map (Option.map .ok))
        tree
      (produced.1.map graphOutcome, produced.2) := by
  intro w
  unfold writeFlow flowText
  dsimp only
  rw [Job.on_bind, Job.on_ofTraced]
  rcases (nodeFeatures architecture options.features f flow).result with fault | _ | features
  · rfl
  · rfl
  · dsimp only
    rw [Job.on_bind, Job.on_ofTraced]
    rcases (Attributed.ofFeatures flow features options.features.scheme
      options.labels).result with fault | _ | graph
    · rfl
    · rfl
    · refine acts_written (Job.acts_writeBelow output graph.toJson.render) graphOutcome ?_ _
      exact fun _ => rfl

def drawGraph (options : GraphOptions) (architecture : Option Architecture) (stem : String)
    (f : Function) : Tree → Except Fault Production × Tree :=
  produce Entry.isFile (graphPath options.directory stem options.features.scheme f.name)
    ((graphText options architecture f).map (Option.map .ok))

theorem acts_generateGraph (options : GraphOptions) (architecture : Option Architecture)
    (stem : String) (f : Function) :
    (generateGraph options architecture stem f).Acts fun tree =>
      let produced := drawGraph options architecture stem f tree
      (produced.1.map graphOutcome, produced.2) := by
  intro w
  unfold generateGraph drawGraph produce graphText
  dsimp only
  rw [Job.on_bind, Job.on_ask]
  unfold Tree.isFile
  rcases w.tree.test Entry.isFile
    (graphPath options.directory stem options.features.scheme f.name) with fault | _ | _
  · rfl
  · simp only [Bool.false_eq_true, ↓reduceIte]
    rw [Job.on_bind, Job.on_ofTraced]
    rcases (Flow.buildReporting f options.minBlocks).result with fault | _ | flow
    · rfl
    · rfl
    · dsimp only
      by_cases empty : flow.edges.isEmpty
      · rw [if_pos empty, if_pos empty]
        rfl
      · rw [if_neg empty, if_neg empty]
        exact acts_writeFlow options architecture _ f flow _
  · rfl

/-- Makes the graph of a function; a fault of the function is its failure. -/
def tryGraph (options : GraphOptions) (architecture : Option Architecture) (stem : String)
    (f : Function) (tree : Tree) : Except Fault Outcome × Tree :=
  match drawGraph options architecture stem f tree with
  | (.ok production, later) => (.ok (graphOutcome production), later)
  | (.error fault, later) =>
    (if fault.isFunctionFailure then .ok .failed else .error fault, later)

theorem acts_attemptGraph (options : GraphOptions) (architecture : Option Architecture)
    (input : Path) (f : Function) :
    (attemptGraph options architecture input f).Acts
      (tryGraph options architecture (inputStem input) f) := by
  intro w
  rcases drawn : drawGraph options architecture (inputStem input) f w.tree with ⟨outcome, tree⟩
  obtain ⟨later, ran, same⟩ :=
    (acts_generateGraph options architecture (inputStem input) f).exists_on (w := w) rfl
  unfold attemptGraph tryGraph
  rw [Job.on_bind, Job.on_attempt, ran, drawn]
  rw [drawn] at same
  subst same
  cases outcome with
  | ok production => rfl
  | error fault =>
      dsimp only [Except.map]
      cases fault.isFunctionFailure <;> rfl

theorem answers_chooseArchitecture (options : GraphOptions) (loaded : FunctionFile) :
    (chooseArchitecture options loaded).Answers fun _ =>
      .ok (options.architecture.or loaded.architecture) := by
  intro w
  unfold chooseArchitecture
  rcases options.architecture with _ | a
  · rcases loaded.architecture with _ | a
    · dsimp only
      cases options.features.scheme.isCounting <;> rfl
    · rfl
  · rfl

def drawGraphs (options : GraphOptions) (loaded : FunctionFile) (tree : Tree) :
    Except Fault Report × Tree :=
  let architecture := options.architecture.or loaded.architecture
  if architecture.isNone && options.features.scheme.isCounting then
    (.ok { failed := loaded.malformed + loaded.functions.length }, tree)
  else
    let drawn := Tree.inTurn (tryGraph options architecture (inputStem loaded.path))
      loaded.functions tree
    (drawn.1.map fun outcomes =>
      Report.merge { failed := loaded.malformed } (Report.ofOutcomes outcomes), drawn.2)

theorem acts_graphsOf (options : GraphOptions) (loaded : FunctionFile) :
    (graphsOf options loaded).Acts (drawGraphs options loaded) := by
  have step (architecture : Option Architecture) :
      (if architecture.isNone && options.features.scheme.isCounting then
        return { failed := loaded.malformed + loaded.functions.length }
      else do
        let outcomes ← loaded.functions.mapM (attemptGraph options architecture loaded.path)
        let report := Report.merge { failed := loaded.malformed } (Report.ofOutcomes outcomes)
        Job.report
          (.fileProcessed loaded.path.text report.processed report.skipped report.failed)
        return report : Job Report).Acts fun tree =>
      if architecture.isNone && options.features.scheme.isCounting then
        (.ok { failed := loaded.malformed + loaded.functions.length }, tree)
      else
        let drawn := Tree.inTurn (tryGraph options architecture (inputStem loaded.path))
          loaded.functions tree
        (drawn.1.map fun outcomes =>
          Report.merge { failed := loaded.malformed } (Report.ofOutcomes outcomes), drawn.2) := by
    cases architecture.isNone && options.features.scheme.isCounting with
    | true => exact fun _ => rfl
    | false =>
        have each := Job.acts_mapM
          (acts_attemptGraph options architecture loaded.path) loaded.functions
        exact each.finish fun outcomes => fun _ => rfl
  exact (answers_chooseArchitecture options loaded).bind step

/-! ## Files apart -/

def contained (result : Except Fault Report × Tree) : Report × Tree :=
  match result with
  | (.ok report, tree) => (report, tree)
  | (.error _, tree) => ({ failed := 1 }, tree)

theorem acts_isolated {job : Job Report} {action : Tree → Except Fault Report × Tree}
    (acts : job.Acts action) (path : Path) :
    (isolated path job).Acts fun tree =>
      (.ok (contained (action tree)).1, (contained (action tree)).2) := by
  intro w
  rcases acted : action w.tree with ⟨outcome, tree⟩
  obtain ⟨later, ran, same⟩ := acts.exists_on acted
  unfold isolated
  rw [Job.on_bind, Job.on_attempt, ran]
  subst same
  dsimp only
  rw [acted]
  cases outcome <;> rfl

/-- Goes on with a file that was read; one that was not fails. -/
def withRead {β : Type} (further : β → Tree → Except Fault Report × Tree)
    (read : Except Fault (Option β)) (tree : Tree) : Except Fault Report × Tree :=
  match read with
  | .error fault => (.error fault, tree)
  | .ok none => (.ok { failed := 1 }, tree)
  | .ok (some b) => further b tree

theorem acts_withRead {β : Type} {load : Job (Option β)} {next : Option β → Job Report}
    {read : Tree → Except Fault (Option β)} {further : β → Tree → Except Fault Report × Tree}
    (loads : load.Answers read) (fails : next none = pure { failed := 1 })
    (acts : ∀ b, (next (some b)).Acts (further b)) :
    (load >>= next).Acts fun tree => withRead further (read tree) tree := by
  have step (loaded : Option β) :
      (next loaded).Acts fun tree => withRead further (.ok loaded) tree := by
    cases loaded with
    | none =>
        rw [fails]
        exact fun _ => rfl
    | some b => exact acts b
  refine (loads.bind step).congr fun tree => ?_
  rcases read tree with _ | _ | _ <;> rfl

theorem acts_graphsOfFile (options : GraphOptions) (input : Path) :
    (graphsOfFile options input).Acts fun tree =>
      let result := contained
        (withRead (drawGraphs options) (functionsFrom input (tree.readText input)) tree)
      (.ok result.1, result.2) :=
  acts_isolated (acts_withRead (answers_loadFunctions input) rfl (acts_graphsOf options)) input

/-! ## Call graphs -/

def twoBlocks (name : String) : String :=
  "\x7b\"name\":\"" ++ name ++ "\",\"offset\":1,\"size\":20,\"blocks\":[" ++
    "\x7b\"offset\":2,\"jump\":9,\"ops\":[]\x7d,\x7b\"offset\":9,\"ops\":[]\x7d]\x7d"

end FlowCorpus.Batch
