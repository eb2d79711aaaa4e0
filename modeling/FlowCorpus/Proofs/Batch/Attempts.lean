import FlowCorpus.Proofs.Batch.ForkJoin
import FlowCorpus.Proofs.Storage.Turns

/-!
# Batches with faults

Every task of a batch has its turn, whatever came of the others. The results of all of them make the
result of the batch, or the first fault among them does.
-/

set_option autoImplicit false

namespace FlowCorpus.Batch

open FlowCorpus.Storage

variable {α β : Type}

/-! ## Single tasks -/

theorem acts_attempt {job : Job β} {action : Tree → Except Fault β × Tree}
    (acts : job.Acts action) :
    (Job.attempt job).Acts fun tree => (.ok (action tree).1, (action tree).2) := by
  intro w
  obtain ⟨result, left⟩ := Prod.mk.inj (acts w)
  rw [Job.on_attempt]
  dsimp only
  rw [result, left]

theorem acts_quietly {task : Job β} {action : Tree → Except Fault β × Tree}
    (acts : task.Acts action) : (quietly task).Acts action := by
  intro w
  rcases ran : task.on w with ⟨outcome, middle⟩
  have attempted : (Job.attempt task).on w = (.ok outcome, middle) := by
    rw [Job.on_attempt, ran]
  have quiet : (quietly task).on w = (outcome, { middle with journal := w.journal }) := by
    unfold quietly
    have read : (get : Job Workspace).on w = (.ok w, w) := rfl
    have reset : (modify fun v => { v with journal := w.journal } : Job Unit).on middle =
        (.ok (), { middle with journal := w.journal }) := rfl
    rw [Job.on_bind_of_ok read, Job.on_bind_of_ok attempted, Job.on_bind_of_ok reset,
      Job.on_ofExcept]
  have same := acts w
  rw [ran] at same
  rw [quiet]
  exact same

theorem acts_runOne {run : α → Job β} {step : α → Tree → Except Fault β × Tree} {item : α}
    (acts : (run item).Acts (step item)) (pooled : Bool) (index : Nat) :
    (runOne pooled run index item).Acts fun tree =>
      (.ok ⟨index, (step item tree).1⟩, (step item tree).2) := by
  have task : (if pooled then quietly (run item) else run item).Acts (step item) := by
    cases pooled with
    | true => exact acts_quietly acts
    | false => exact acts
  refine (acts_attempt task).finish fun outcome => ?_
  intro w
  cases outcome <;> rfl

/-! ## All tasks -/

def placed (start : Nat) (outcomes : List (Except Fault β)) : List (Finished Fault β) :=
  (outcomes.zipIdx start).map fun (outcome, index) => ⟨index, outcome⟩

theorem firstFault?_placed (start : Nat) (outcomes : List (Except Fault β)) :
    (∃ fault, firstFault? (placed start outcomes) = some fault ∧ outcomes.mapM id = .error fault) ∨
      ∃ results : List β, outcomes = results.map .ok := by
  induction outcomes generalizing start with
  | nil => exact .inr ⟨[], rfl⟩
  | cons outcome rest ih =>
      cases outcome with
      | error fault => exact .inl ⟨fault, rfl, by rw [List.mapM_cons]; rfl⟩
      | ok result =>
          rcases ih (start + 1) with ⟨fault, first, stopped⟩ | ⟨results, rfl⟩
          · refine .inl ⟨fault, first, ?_⟩
            rw [List.mapM_cons, stopped]
            rfl
          · exact .inr ⟨result :: results, rfl⟩

theorem mapM_map_ok (results : List β) :
    (results.map Except.ok : List (Except Fault β)).mapM id = .ok results := by
  induction results with
  | nil => rfl
  | cons result rest ih =>
      rw [List.map_cons, List.mapM_cons, ih]
      rfl

theorem join_placed (outcomes : List (Except Fault β)) :
    join outcomes.length (placed 0 outcomes) = outcomes.mapM id := by
  unfold join
  rcases firstFault?_placed 0 outcomes with ⟨fault, first, stopped⟩ | ⟨results, rfl⟩
  · rw [first, stopped]
  · have all : placed 0 (results.map .ok : List (Except Fault β)) = succeeded 0 results := by
      unfold placed succeeded
      rw [List.zipIdx_map, List.map_map]
      rfl
    rw [all, firstFault?_succeeded, mapM_map_ok, List.length_map, List.range_eq_range',
      filterMap_resultAt?]

def numbered (step : α → Tree → Except Fault β × Tree) (entry : α × Nat) (tree : Tree) :
    Except Fault (Finished Fault β) × Tree :=
  (.ok ⟨entry.2, (step entry.1 tree).1⟩, (step entry.1 tree).2)

/-- Actions whose outcomes are noted all have their turns. -/
theorem turns_numbered (step : α → Tree → Except Fault β × Tree) (items : List α) (start : Nat)
    (tree : Tree) :
    ∃ turns : List (Tree.Turn α (Except Fault β)),
      Tree.Turns tree turns (Tree.inTurn (numbered step) (items.zipIdx start) tree).2 ∧
      turns.map Tree.Turn.item = items ∧
      (Tree.inTurn (numbered step) (items.zipIdx start) tree).1 =
        .ok (placed start (turns.map Tree.Turn.result)) ∧
      ∀ turn ∈ turns, step turn.item turn.before = (turn.result, turn.after) := by
  induction items generalizing start tree with
  | nil => exact ⟨[], .nil tree, rfl, rfl, by simp⟩
  | cons item rest ih =>
      obtain ⟨turns, chain, same, results, steps⟩ := ih (start + 1) (step item tree).2
      have first : numbered step (item, start) tree =
          (.ok ⟨start, (step item tree).1⟩, (step item tree).2) := rfl
      rw [List.zipIdx_cons, Tree.inTurn_cons_ok first]
      refine ⟨⟨tree, item, (step item tree).1, (step item tree).2⟩ :: turns, .cons chain, ?_, ?_,
        ?_⟩
      · rw [List.map_cons, same]
      · dsimp only
        rw [results]
        rfl
      · rw [List.forall_mem_cons]
        exact ⟨rfl, steps⟩

theorem tree_reports (events : List Event) (w : Workspace) :
    ∃ later : Workspace, (events.forM Job.report).on w = (.ok (), later) ∧
      later.tree = w.tree :=
  ⟨_, on_forM_report events w, rfl⟩

/-- A batch with a pool, or without need for one, runs all its tasks. -/
theorem forkJoin_turns {run : α → Job β} {step : α → Tree → Except Fault β × Tree}
    (acts : ∀ item, (run item).Acts (step item)) {workers : Int} {items : List α}
    (pool : poolFault? workers items.length = none) (w : Workspace) :
    ∃ (turns : List (Tree.Turn α (Except Fault β))) (later : Workspace),
      (forkJoin workers run items).on w = ((turns.map Tree.Turn.result).mapM id, later) ∧
      Tree.Turns w.tree turns later.tree ∧ turns.map Tree.Turn.item = items ∧
      ∀ turn ∈ turns, step turn.item turn.before = (turn.result, turn.after) := by
  obtain ⟨turns, chain, same, results, steps⟩ := turns_numbered step items 0 w.tree
  obtain ⟨started, reported, left⟩ := tree_reports (poolEvents workers items.length) w
  have joined := join_placed (turns.map Tree.Turn.result)
  rw [List.length_map, ← List.length_map Tree.Turn.item, same] at joined
  rw [← left] at chain results
  have ended : ∃ later : Workspace,
      (forkJoin workers run items).on w = ((turns.map Tree.Turn.result).mapM id, later) ∧
      later.tree = (Tree.inTurn (numbered step) items.zipIdx started.tree).2 := by
    unfold forkJoin
    dsimp only
    rw [Job.on_bind_of_ok reported, pool]
    refine Job.Acts.exists_on_bind (Job.acts_mapM ?_ items.zipIdx) (Prod.ext results rfl)
      fun later => ?_
    · rintro ⟨item, index⟩
      exact acts_runOne (acts item) _ index
    · rw [← joined]
      exact Job.on_ofExcept _ later
  obtain ⟨later, ran, after⟩ := ended
  refine ⟨turns, later, ran, ?_, same, steps⟩
  rw [after, ← left]
  exact chain

/-- Jobs that were run one after the other are actions in turn. -/
theorem inTurn_of_ran {run : α → Job β} {step : α → Tree → Except Fault β × Tree}
    (acts : ∀ item, (run item).Acts (step item)) {tree later : Tree} {items : List α}
    {results : List β} (ran : Ran run tree items results later) :
    Tree.inTurn step items tree = (.ok results, later) := by
  induction ran with
  | nil => rfl
  | cons first _ ih =>
      rw [Tree.inTurn_cons_ok ((acts _).of_on first), ih]
      rfl

end FlowCorpus.Batch
