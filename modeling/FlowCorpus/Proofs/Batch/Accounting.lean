import FlowCorpus.Proofs.Batch.Rerun
import FlowCorpus.Proofs.Exchange.Alignment
import FlowCorpus.Proofs.Storage.Turns

/-!
# Accounts of graph files

Every function and every malformed record of an input file is counted once in its report, and a
function that is counted as processed has its graph at its place, while the others change no file.
The number of graphs is that of the new files, as far as none of them replaces a file that its path
did not lead to before the directories on the way were made.
-/

set_option autoImplicit false

namespace FlowCorpus.Feature

open FlowCorpus.Assembly FlowCorpus.Exchange FlowCorpus.Graph FlowCorpus.Program

variable {α β : Type}

/-! ## Faults of one function -/

/-- A result whose faults fail one function and nothing else. -/
def FailsFunction (outcome : Except Fault α) : Prop :=
  ∀ fault, outcome = .error fault → fault.isFunctionFailure = true

theorem failsFunction_ok (a : α) : FailsFunction (.ok a) := by
  intro fault failure
  cases failure

theorem failsFunction_error {fault : Fault} (failure : fault.isFunctionFailure = true) :
    FailsFunction (.error fault : Except Fault α) := by
  intro other same
  cases same
  exact failure

theorem FailsFunction.bind {outcome : Except Fault α} {next : α → Except Fault β}
    (first : FailsFunction outcome) (second : ∀ a, outcome = .ok a → FailsFunction (next a)) :
    FailsFunction (outcome >>= next) := by
  intro fault failure
  rcases Outcome.bind_error failure with early | ⟨a, reached, late⟩
  · exact first fault early
  · exact second a reached fault late

theorem FailsFunction.mapM {step : α → Except Fault β} {items : List α}
    (each : ∀ item ∈ items, FailsFunction (step item)) : FailsFunction (items.mapM step) := by
  intro fault failure
  obtain ⟨item, member, failed⟩ := Outcome.mapM_error failure
  exact each item member fault failed

theorem failsFunction_blockLines (scheme : Scheme) (maskRegisters : Bool) (b : Block) :
    FailsFunction (blockLines (.ok scheme) maskRegisters b) := by
  refine (failsFunction_ok scheme).bind fun chosen same => ?_
  cases same
  refine FailsFunction.bind (.mapM fun i _ => ?_) fun lines _ => failsFunction_ok _
  cases scheme with
  | esil | disasm => exact failsFunction_ok _
  | gemini | discovre | dgis | tiknib | embedded | encoded => exact failsFunction_error rfl

/-- What a block has in a counting or textual scheme: a vector, or lines in a textual scheme. -/
inductive IsPlain (scheme : Scheme) : NodeFeature → Prop where
  | vector (v : Vector) : IsPlain scheme (.vector v)
  | lines (ls : List String) : scheme.isTextual = true → IsPlain scheme (.lines ls)

theorem result_vectorOf (scheme : Scheme) (a : Architecture) (b : Block) :
    ∃ v, (vectorOf scheme a b).result = .ok v := by
  unfold vectorOf
  cases counts? scheme a b with
  | some counts => exact ⟨_, rfl⟩
  | none => exact ⟨_, rfl⟩

theorem IsPlain.attributes {scheme : Scheme} {feature : NodeFeature}
    (plain : IsPlain scheme feature) :
    ∀ fault, feature.attributes (some scheme) = .error fault → fault.kind = .value := by
  intro fault failure
  cases plain with
  | vector v =>
      change NodeFeature.vectorAttributes v = _ at failure
      unfold NodeFeature.vectorAttributes NodeFeature.nameDoubles at failure
      split at failure
      · cases failure
      · split at failure <;> cases failure
        rfl
  | lines ls textual => cases scheme <;> cases textual <;> cases failure

section

variable {options : FeatureOptions} (architecture : Option Architecture)
  (suited : options.scheme.isCounting = true ∨ options.scheme.isTextual = true)

include suited

theorem blockFeature_plain (b : Block) :
    FailsFunction (blockFeature architecture options b).result ∧
      ∀ feature, (blockFeature architecture options b).result = .ok (some feature) →
        IsPlain options.scheme feature := by
  unfold blockFeature
  by_cases counting : options.scheme.isCounting = true
  · rw [if_pos counting]
    cases architecture with
    | none => exact ⟨failsFunction_error rfl, fun feature given => by cases given⟩
    | some a =>
        obtain ⟨v, computed⟩ := result_vectorOf options.scheme a b
        dsimp only
        rw [Traced.result_bind fun _ => Traced.appends_pure _, computed]
        refine ⟨failsFunction_ok _, fun feature given => ?_⟩
        change Except.ok (if v.isEmpty then none else some (NodeFeature.vector v)) = _ at given
        split at given <;> cases given
        exact .vector v
  · have textual := suited.resolve_left counting
    rw [if_neg counting, if_pos textual, Traced.result_bind fun _ => Traced.appends_pure _]
    have lines := failsFunction_blockLines options.scheme options.maskRegisters b
    rw [Traced.result_ofExcept]
    refine ⟨lines.bind fun _ _ => failsFunction_ok _, fun feature given => ?_⟩
    obtain ⟨ls, -, shape⟩ := Outcome.bind_ok given
    cases shape
    exact .lines ls textual

theorem failsFunction_featuresAt (f : Function) (addresses : List Int) :
    FailsFunction (featuresAt architecture options f addresses).result := by
  induction addresses with
  | nil => exact failsFunction_ok _
  | cons address rest ih =>
      unfold featuresAt
      cases f.blockAt? address with
      | none => exact ih
      | some b =>
          dsimp only
          rw [Traced.result_bind fun feature => ?_]
          · refine (blockFeature_plain architecture suited b).1.bind fun feature _ => ?_
            cases feature with
            | none => exact failsFunction_ok _
            | some feature =>
                dsimp only
                rw [Traced.result_bind fun _ => Traced.appends_pure _]
                exact ih.bind fun _ _ => failsFunction_ok _
          · cases feature with
            | none => exact Traced.appends_pure _
            | some feature =>
                exact (appends_featuresAt _ _ _ _).bind fun _ => Traced.appends_pure _

theorem featuresAt_plain {f : Function} {addresses : List Int} {features : List NodeFeature}
    (given : (featuresAt architecture options f addresses).result = .ok (some features)) :
    ∀ feature ∈ features, IsPlain options.scheme feature := by
  refine Outcome.forall_of_forall₂ (featuresAt_some given).flip fun feature b computed => ?_
  exact (blockFeature_plain architecture suited b).2 feature computed

end

end FlowCorpus.Feature

namespace FlowCorpus.Batch

open FlowCorpus.Assembly FlowCorpus.Exchange FlowCorpus.Feature FlowCorpus.Graph
open FlowCorpus.Program FlowCorpus.Storage

/-! ## Outputs -/

theorem failsFunction_ofFeatures {scheme : Scheme} {features : List NodeFeature}
    (plain : ∀ feature ∈ features, IsPlain scheme feature) (flow : Flow) (mode : NodeLabel) :
    FailsFunction (Attributed.ofFeatures flow (some features) (some scheme) mode).result := by
  rw [Attributed.result_ofFeatures]
  split
  · split
    · exact failsFunction_ok _
    · rename_i fault failure
      have value : fault.kind = .value := by
        obtain ⟨⟨label, feature⟩, member, failed⟩ := Outcome.mapM_error failure
        rcases Outcome.bind_error failed with attributes | ⟨_, _, impossible⟩
        · exact (plain feature (List.of_mem_zip member).2).attributes fault attributes
        · cases impossible
      rw [if_pos value]
      exact failsFunction_ok _
  · exact failsFunction_ok _

theorem failsFunction_graphText {options : GraphOptions} (architecture : Option Architecture)
    (suited : options.features.scheme.isCounting = true ∨ options.features.scheme.isTextual = true)
    (f : Function) : FailsFunction (graphText options architecture f) := by
  unfold graphText Flow.buildReporting
  cases Flow.build f options.minBlocks with
  | none => exact failsFunction_ok _
  | some flow =>
      change FailsFunction
        (if flow.edges.isEmpty then .ok none else flowText options architecture f flow)
      split
      · exact failsFunction_ok _
      · unfold flowText
        have drawn := failsFunction_featuresAt architecture suited f flow.index.addresses
        rcases computed : (nodeFeatures architecture options.features f flow).result
          with fault | _ | features
        · exact failsFunction_error (drawn fault computed)
        · exact failsFunction_ok _
        · have plain := featuresAt_plain architecture suited computed
          intro fault failure
          refine failsFunction_ofFeatures plain flow options.labels fault ?_
          dsimp only at failure
          cases exported : (Attributed.ofFeatures flow (some features)
              (some options.features.scheme) options.labels).result with
          | error other =>
              rw [exported] at failure
              cases failure
              rfl
          | ok graph =>
              rw [exported] at failure
              cases failure

/-- A function in a counting or textual scheme is always counted. -/
theorem tryGraph_ok {options : GraphOptions}
    (suited : options.features.scheme.isCounting = true ∨ options.features.scheme.isTextual = true)
    (architecture : Option Architecture) (stem : String) (f : Function) (tree : Tree) :
    ∃ outcome, (tryGraph options architecture stem f tree).1 = .ok outcome := by
  unfold tryGraph
  rcases drawn : drawGraph options architecture stem f tree with ⟨fault | production, later⟩
  · have failure : fault.isFunctionFailure = true := by
      rcases produce_error_again _ drawn with ⟨store, -⟩ | ⟨text, -⟩
      · exact store.isFunctionFailure
      · exact failsFunction_graphText architecture suited f fault text
    exact ⟨.failed, by simp [failure]⟩
  · exact ⟨_, rfl⟩

/-- An output that is written is a file at its path, and replaces one only if that was hidden; one
that is not written changes no file. -/
theorem files_of_produce {path : Path} {drawn : Drawn} {tree later : Tree}
    {outcome : Except Fault Production}
    (produced : produce Entry.isFile path drawn tree = (outcome, later)) :
    (outcome = .ok .written ∧ Tree.Puts (tree.destination path) tree later ∧
        (tree.destination path ∈ tree.fileLocations → tree.Hidden path)) ∨
      outcome ≠ .ok .written ∧ Tree.SameFiles tree later := by
  rcases produce_cases produced with ⟨_, -, rfl, rfl⟩ | ⟨-, rfl, rfl⟩ | ⟨absent, drew⟩
  · exact .inr ⟨by simp, .refl _⟩
  · exact .inr ⟨by simp, .refl _⟩
  · rcases drew with ⟨_, -, rfl, rfl⟩ | ⟨-, rfl, rfl⟩ | ⟨text, -, placed⟩
    · exact .inr ⟨by simp, .refl _⟩
    · exact .inr ⟨by simp, .refl _⟩
    · rcases placed with ⟨placed, rfl⟩ | ⟨fault, placed, rfl⟩
      · rcases Tree.files_of_place placed with ⟨-, puts⟩ | ⟨⟨_, impossible⟩, -⟩
        · refine .inl ⟨rfl, puts, fun there => ?_⟩
          obtain ⟨content, there⟩ := Tree.mem_fileLocations.mp there
          exact Tree.hidden_of_place absent placed there
        · cases impossible
      · rcases Tree.files_of_place placed with ⟨impossible, -⟩ | ⟨-, same⟩
        · cases impossible
        · exact .inr ⟨by simp, same⟩

theorem paved_produce {kind : Entry → Bool} {path : Path} {drawn : Drawn} {tree : Tree}
    (paved : tree.Paved) : Tree.Paved (produce kind path drawn tree).2 := by
  rcases produced : produce kind path drawn tree with ⟨outcome, later⟩
  rcases produce_cases produced with ⟨_, -, -, rfl⟩ | ⟨-, -, rfl⟩ | ⟨-, drew⟩
  · exact paved
  · exact paved
  · rcases drew with ⟨_, -, -, rfl⟩ | ⟨-, -, rfl⟩ | ⟨text, -, placed⟩
    · exact paved
    · exact paved
    · have after := paved.place path text
      rcases placed with ⟨placed, -⟩ | ⟨_, placed, -⟩ <;> rwa [placed] at after

/-! ## Turns of functions -/

def GraphOptions.output (options : GraphOptions) (input : Path) (f : Function) : Path :=
  graphPath options.directory (inputStem input) options.features.scheme f.name

structure GraphTurn (options : GraphOptions) (input : Path) (turn : Tree.Turn Function Outcome) :
    Prop where
  /-- A graph that is written is a file at its path, and no other file is made or changed. -/
  writes : turn.result = .processed →
    Tree.Puts (turn.before.destination (options.output input turn.item)) turn.before turn.after
  /-- A function that is not processed makes and changes no file. -/
  keeps : turn.result ≠ .processed → Tree.SameFiles turn.before turn.after
  /-- A graph replaces only a file that its path did not lead to. -/
  hidden : turn.result = .processed →
    turn.before.destination (options.output input turn.item) ∈ turn.before.fileLocations →
    turn.before.Hidden (options.output input turn.item)
  paved : turn.before.Paved → turn.after.Paved

def Replaced (options : GraphOptions) (input : Path) (turn : Tree.Turn Function Outcome) : Bool :=
  turn.result = .processed &&
    turn.before.destination (options.output input turn.item) ∈ turn.before.fileLocations

theorem graphTurn_of_tryGraph {options : GraphOptions} {architecture : Option Architecture}
    {input : Path} {turn : Tree.Turn Function Outcome}
    (step : tryGraph options architecture (inputStem input) turn.item turn.before =
      (.ok turn.result, turn.after)) : GraphTurn options input turn := by
  have left := tree_tryGraph options architecture (inputStem input) turn.item turn.before
  have paved : turn.before.Paved → turn.after.Paved := by
    intro before
    rw [step] at left
    dsimp only at left
    rw [left]
    exact paved_produce before
  unfold tryGraph at step
  rcases drawn : drawGraph options architecture (inputStem input) turn.item turn.before
    with ⟨fault | production, later⟩
  · rw [drawn] at step
    dsimp only at step
    obtain ⟨result, rfl⟩ := Prod.mk.inj step
    have failed : turn.result = .failed := by
      split at result
      · exact (Except.ok.inj result).symm
      · cases result
    rcases files_of_produce drawn with ⟨impossible, -⟩ | ⟨-, same⟩
    · cases impossible
    · exact ⟨fun done => by simp [failed] at done, fun _ => same,
        fun done => by simp [failed] at done, paved⟩
  · rw [drawn] at step
    obtain ⟨result, rfl⟩ := Prod.mk.inj step
    have counted : graphOutcome production = turn.result := Except.ok.inj result
    rcases files_of_produce drawn with ⟨written, puts, hidden⟩ | ⟨unwritten, same⟩
    · cases written
      exact ⟨fun _ => puts, fun undone => absurd counted.symm undone, fun _ => hidden, paved⟩
    · have undone : turn.result ≠ .processed := by
        rw [← counted]
        cases production with
        | written => exact absurd rfl unwritten
        | present | nothing => simp [graphOutcome]
      exact ⟨fun done => absurd done undone, fun _ => same, fun done => absurd done undone, paved⟩

/-! ## Reports -/

theorem processed_foldl (outcomes : List Outcome) (report : Report) :
    (outcomes.foldl Report.record report).processed =
      report.processed + outcomes.count .processed := by
  induction outcomes generalizing report with
  | nil => simp
  | cons outcome rest ih =>
      rw [List.foldl_cons, ih, List.count_cons]
      cases outcome <;> simp [Report.record]
      omega

theorem total_foldl (outcomes : List Outcome) (report : Report) :
    (outcomes.foldl Report.record report).total = report.total + outcomes.length := by
  induction outcomes generalizing report with
  | nil => simp
  | cons outcome rest ih =>
      rw [List.foldl_cons, ih, Report.total_record, List.length_cons]
      omega

/-- The report of a file: its malformed records and what came of its functions. -/
def reportOf (malformed : Nat) (outcomes : List Outcome) : Report :=
  Report.merge { failed := malformed } (Report.ofOutcomes outcomes)

theorem total_reportOf (malformed : Nat) (outcomes : List Outcome) :
    (reportOf malformed outcomes).total = outcomes.length + malformed := by
  unfold reportOf Report.ofOutcomes
  rw [Report.total_merge, total_foldl]
  simp [Report.total]
  omega

theorem processed_reportOf (malformed : Nat) (outcomes : List Outcome) :
    (reportOf malformed outcomes).processed = outcomes.count .processed := by
  unfold reportOf Report.ofOutcomes Report.merge
  rw [processed_foldl]
  simp

theorem reportOf_failed (malformed count : Nat) :
    reportOf malformed (List.replicate count .failed) = { failed := malformed + count } := by
  have counted (report : Report) :
      (List.replicate count Outcome.failed).foldl Report.record report =
        { report with failed := report.failed + count } := by
    induction count generalizing report with
    | zero => simp
    | succ count ih =>
        rw [List.replicate_succ, List.foldl_cons, ih]
        simp [Report.record]
        omega
  unfold reportOf Report.ofOutcomes
  rw [counted]
  simp [Report.merge]

/-! ## Accounts -/

theorem turns_idle {α β : Type} (tree : Tree) (items : List α) (result : β) :
    Tree.Turns tree (items.map fun item => ⟨tree, item, result, tree⟩) tree := by
  induction items with
  | nil => exact .nil tree
  | cons item rest ih => exact .cons ih

/-- The functions of a file take their turns, and are counted by what came of them. -/
theorem turns_of_drawGraphs {options : GraphOptions}
    (suited : options.features.scheme.isCounting = true ∨ options.features.scheme.isTextual = true)
    (loaded : FunctionFile) (tree : Tree) :
    ∃ turns : List (Tree.Turn Function Outcome),
      Tree.Turns tree turns (drawGraphs options loaded tree).2 ∧
      turns.map Tree.Turn.item = loaded.functions ∧
      (drawGraphs options loaded tree).1 =
        .ok (reportOf loaded.malformed (turns.map Tree.Turn.result)) ∧
      ∀ turn ∈ turns, GraphTurn options loaded.path turn := by
  unfold drawGraphs
  dsimp only
  split
  · -- Without an architecture for its counts, every function fails.
    refine ⟨loaded.functions.map fun f => ⟨tree, f, .failed, tree⟩,
      turns_idle tree _ _, ?_, ?_, ?_⟩
    · simp [Function.comp_def]
    · simp [Function.comp_def, reportOf_failed]
    · rw [List.forall_mem_map]
      exact fun f _ => ⟨by simp, fun _ => .refl tree, by simp, id⟩
  · obtain ⟨turns, chain, items, results, steps⟩ := Tree.turns_of_inTurn (fun f _ =>
      tryGraph_ok suited (options.architecture.or loaded.architecture) (inputStem loaded.path) f)
      tree
    refine ⟨turns, chain, items, ?_, fun turn member => graphTurn_of_tryGraph (steps turn member)⟩
    rw [results]
    rfl

theorem processed_turns {options : GraphOptions} {input : Path} {tree later : Tree}
    {turns : List (Tree.Turn Function Outcome)} (chain : Tree.Turns tree turns later)
    (each : ∀ turn ∈ turns, GraphTurn options input turn) :
    (turns.map Tree.Turn.result).count .processed =
      (later.fileLocations \ tree.fileLocations).card + turns.countP (Replaced options input) := by
  obtain ⟨kept, counted⟩ := chain.card_fileLocations (fun turn => turn.result = .processed)
    (fun turn => turn.before.destination (options.output input turn.item))
    (fun turn member done => (each turn member).writes (by simpa using done))
    (fun turn member undone => (each turn member).keeps (by simpa using undone))
  have results : (turns.map Tree.Turn.result).count .processed =
      turns.countP fun turn => turn.result = .processed := by
    rw [List.count, List.countP_map]
    exact List.countP_congr fun turn _ => by simp
  have sizes := Finset.card_sdiff_of_subset kept
  have smaller := Finset.card_le_card kept
  have replaced : turns.countP (Replaced options input) = turns.countP fun turn =>
      turn.result = .processed &&
        turn.before.destination (options.output input turn.item) ∈ turn.before.fileLocations := rfl
  omega

/-- Where every entry stands in a directory and no path leads up, no graph replaces a file. -/
theorem not_replaced {options : GraphOptions} {input : Path} {tree later : Tree}
    {turns : List (Tree.Turn Function Outcome)} (chain : Tree.Turns tree turns later)
    (each : ∀ turn ∈ turns, GraphTurn options input turn) (paved : tree.Paved)
    (down : ∀ turn ∈ turns, ∀ name ∈ (options.output input turn.item).names, name ≠ "..") :
    turns.countP (Replaced options input) = 0 := by
  rw [List.countP_eq_zero]
  intro turn member replaced
  have before := chain.before (fun turn member => (each turn member).paved) paved turn member
  simp only [Replaced, Bool.and_eq_true, decide_eq_true_eq] at replaced
  exact before.not_hidden (down turn member) ((each turn member).hidden replaced.1 replaced.2)

/-- Every function of an input file that is read has its turn and is counted by what came of it, and
every malformed record is counted as failed. A function that is processed has its graph at its path,
and one that is not makes and changes no file. There are as many graphs as new files and files that
were replaced, which are files that the path of a graph did not lead to before the directories on
the way were made; there are none of these where every entry stands in a directory and no path of a
graph leads up. -/
theorem graphsOfFile_accounts {options : GraphOptions}
    (suited : options.features.scheme.isCounting = true ∨ options.features.scheme.isTextual = true)
    {input : Path} {w : Workspace} {loaded : FunctionFile}
    (loads : ((loadFunctions input).on w).1 = .ok (some loaded)) :
    ∃ (report : Report) (later : Workspace) (turns : List (Tree.Turn Function Outcome)),
      (graphsOfFile options input).on w = (.ok report, later) ∧
      report.processed + report.skipped + report.failed =
        loaded.functions.length + loaded.malformed ∧
      Tree.Turns w.tree turns later.tree ∧ turns.map Tree.Turn.item = loaded.functions ∧
      report = reportOf loaded.malformed (turns.map Tree.Turn.result) ∧
      (∀ turn ∈ turns, GraphTurn options input turn) ∧
      report.processed = (later.tree.fileLocations \ w.tree.fileLocations).card +
        turns.countP (Replaced options input) ∧
      (w.tree.Paved → (∀ f ∈ loaded.functions, ∀ name ∈ (options.output input f).names,
        name ≠ "..") → turns.countP (Replaced options input) = 0) := by
  have found : functionsFrom input (w.tree.readText input) = .ok (some loaded) := by
    rw [← loads]
    exact (congrArg Prod.fst (answers_loadFunctions input w)).symm
  obtain ⟨turns, chain, items, result, each⟩ := turns_of_drawGraphs suited loaded w.tree
  rw [Generator.path_of_functionsFrom found] at each
  have whole : contained (drawGraphs options loaded w.tree) =
      (reportOf loaded.malformed (turns.map Tree.Turn.result),
        (drawGraphs options loaded w.tree).2) := by
    unfold contained
    rcases drawn : drawGraphs options loaded w.tree with ⟨outcome, tree⟩
    rw [drawn] at result
    cases result
    rfl
  have acted := (acts_graphsOfFile options input).exists_on (w := w) rfl
  simp only [found, withRead, whole] at acted
  obtain ⟨later, ran, left⟩ := acted
  rw [← left] at chain
  have total := total_reportOf loaded.malformed (turns.map Tree.Turn.result)
  rw [List.length_map, ← List.length_map Tree.Turn.item, items] at total
  refine ⟨_, later, turns, ran, total, chain, items, rfl, each, ?_, fun paved down => ?_⟩
  · rw [processed_reportOf, processed_turns chain each]
    exact Int.natCast_add _ _
  · refine not_replaced chain each paved fun turn member => down turn.item ?_
    rw [← items]
    exact List.mem_map_of_mem member

/-- A workspace with an input file, whose first record is a function with one block that leads to
itself, and a graph of another run. -/
def loopWorkspace (further : String) : Workspace where
  tree := { entries := [
    (["a.json"], .file (.text ("\x7b\"name\":\"f\",\"offset\":0,\"size\":1,\"blocks\":[" ++
      "\x7b\"offset\":0,\"jump\":0,\"ops\":[]\x7d]\x7d" ++ further))),
    (["o"], .directory),
    (["o", "a-esil"], .directory),
    (["o", "a-esil", "a-f.json"], .file (.text "old"))] }

def loopInput : Path := ⟨"", ["a.json"]⟩

def lineGraphs (directory : List String) : GraphOptions where
  directory := ⟨"", directory⟩
  features := { scheme := .esil }
  minBlocks := 1

theorem functions_malformedSecond :
    ((loadFunctions loopInput).on (loopWorkspace "\n1")).1.map (Option.map fun loaded =>
      loaded.functions.map Function.name) = .ok (some ["f"]) := by
  decide +kernel

theorem graphsOfFile_accounts_malformed :
    (lineGraphs ["new"]).features.scheme.isTextual = true ∧ (loopWorkspace "\n1").tree.Paved ∧
      ∃ (loaded : FunctionFile) (report : Report) (later : Workspace),
        ((loadFunctions loopInput).on (loopWorkspace "\n1")).1 = .ok (some loaded) ∧
        (graphsOfFile (lineGraphs ["new"]) loopInput).on (loopWorkspace "\n1") =
          (.ok report, later) ∧
        report = { processed := 1, failed := 1 } ∧
        report.processed + report.skipped + report.failed =
          loaded.functions.length + loaded.malformed ∧
        report.processed =
          (later.tree.fileLocations \ (loopWorkspace "\n1").tree.fileLocations).card := by
  have proper : (loopWorkspace "\n1").tree.IsProper :=
    Tree.isProper_of_entries rfl (by decide) (by decide)
  have counted : ((graphsOfFile (lineGraphs ["new"]) loopInput).on (loopWorkspace "\n1")).1 =
      .ok { processed := 1, failed := 1 } := by decide +kernel
  have names := functions_malformedSecond
  rcases loads : ((loadFunctions loopInput).on (loopWorkspace "\n1")).1 with _ | _ | loaded
  · rw [loads] at names
    cases names
  · rw [loads] at names
    cases names
  · rw [loads] at names
    have single : loaded.functions.map Function.name = ["f"] :=
      Option.some.inj (Except.ok.inj names)
    have textual : (lineGraphs ["new"]).features.scheme.isTextual = true := rfl
    obtain ⟨report, later, turns, ran, total, -, -, -, -, processed, replaced⟩ :=
      graphsOfFile_accounts (.inr textual) loads
    have down : ∀ f ∈ loaded.functions,
        ∀ name ∈ ((lineGraphs ["new"]).output loopInput f).names, name ≠ ".." := by
      intro f member
      have named : f.name ∈ loaded.functions.map Function.name := List.mem_map_of_mem member
      rw [single, List.mem_singleton] at named
      unfold GraphOptions.output
      rw [named]
      decide +kernel
    rw [replaced proper.paved down] at processed
    rw [ran] at counted
    cases counted
    exact ⟨rfl, proper.paved, loaded, _, later, rfl, ran, rfl, total, processed⟩

/-- A graph is counted as processed and no file is new when its path leads to the graph that was
there over a directory that is not there yet. -/
theorem graphsOfFile_replaces :
    (lineGraphs ["m", "..", "o"]).features.scheme.isTextual = true ∧
      ((loadFunctions loopInput).on (loopWorkspace "")).1.map (Option.map fun loaded =>
        (loaded.functions.length, loaded.malformed)) = .ok (some (1, 0)) ∧
      ((graphsOfFile (lineGraphs ["m", "..", "o"]) loopInput).on (loopWorkspace "")).1 =
        .ok { processed := 1 } ∧
      (Tree.fileLocations ((graphsOfFile (lineGraphs ["m", "..", "o"]) loopInput).on
        (loopWorkspace "")).2.tree \ (loopWorkspace "").tree.fileLocations).card = 0 := by
  refine ⟨rfl, by decide +kernel, by decide +kernel, Nat.le_zero.mp ?_⟩
  refine Tree.card_new_le [["a.json"], ["o", "a-esil", "a-f.json"]] [] ?_ ?_
  · decide +kernel
  · decide +kernel

end FlowCorpus.Batch
