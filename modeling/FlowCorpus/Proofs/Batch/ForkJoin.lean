import Mathlib.Data.List.Basic
import FlowCorpus.Batch.ForkJoin
import FlowCorpus.Proofs.Storage.Job

/-!
# Batches that succeed

A batch that succeeds ran its tasks one after the other on the file tree, with or without a pool,
and has their results in the order of the items.
-/

set_option autoImplicit false

namespace FlowCorpus.Batch

open FlowCorpus.Storage

variable {α β : Type}

/-- Jobs for items one after the other: what they result in, and the trees before and after. -/
inductive Ran (run : α → Job β) : Tree → List α → List β → Tree → Prop where
  | nil {tree : Tree} : Ran run tree [] [] tree
  | cons {w middle : Workspace} {item : α} {result : β} {items : List α} {results : List β}
      {later : Tree} (first : (run item).on w = (.ok result, middle))
      (others : Ran run middle.tree items results later) :
      Ran run w.tree (item :: items) (result :: results) later

variable {run : α → Job β}

theorem Ran.append {tree middle later : Tree} {items more : List α} {results others : List β}
    (first : Ran run tree items results middle) (second : Ran run middle more others later) :
    Ran run tree (items ++ more) (results ++ others) later := by
  induction first with
  | nil => exact second
  | cons step _ ih => exact .cons step (ih second)

theorem ran_of_mapM {items : List α} {results : List β} {w later : Workspace}
    (success : (items.mapM run).on w = (.ok results, later)) :
    Ran run w.tree items results later.tree := by
  induction items generalizing w results with
  | nil =>
      cases success
      exact .nil
  | cons item rest ih =>
      rw [List.mapM_cons] at success
      obtain ⟨result, middle, first, further⟩ := Job.on_bind_ok success
      obtain ⟨others, last, second, built⟩ := Job.on_bind_ok further
      cases built
      exact .cons first (ih second)

/-! ## Reports leave the tree alone -/

theorem on_forM_report (events : List Event) (w : Workspace) :
    (events.forM Job.report).on w = (.ok (), { w with journal := w.journal ++ events }) := by
  induction events generalizing w with
  | nil =>
      rw [List.append_nil]
      rfl
  | cons event rest ih =>
      have later := ih { w with journal := w.journal ++ [event] }
      rw [List.append_assoc] at later
      exact later

theorem tree_forM_report {events : List Event} {w later : Workspace}
    (reported : (events.forM Job.report).on w = (.ok (), later)) : later.tree = w.tree := by
  rw [on_forM_report] at reported
  cases reported
  rfl

theorem quietly_ok {task : Job β} {w later : Workspace} {b : β}
    (success : (quietly task).on w = (.ok b, later)) :
    ∃ middle, task.on w = (.ok b, middle) ∧ later.tree = middle.tree := by
  obtain ⟨_, _, read, attempted⟩ := Job.on_bind_ok success
  cases read
  obtain ⟨outcome, middle, ran, restored⟩ := Job.on_bind_ok attempted
  obtain ⟨_, last, reset, result⟩ := Job.on_bind_ok restored
  rw [Job.on_attempt] at ran
  rw [Job.on_ofExcept] at result
  cases reset
  cases result
  obtain ⟨returned, rfl⟩ := Prod.mk.inj ran
  exact ⟨_, Prod.ext (Except.ok.inj returned) rfl, rfl⟩

/-- A task of a batch that succeeds did what it does alone. -/
theorem runOne_ok {pooled : Bool} {index : Nat} {item : α} {w later : Workspace}
    {finished : Finished Fault β}
    (success : (runOne pooled run index item).on w = (.ok finished, later)) :
    finished.index = index ∧ ∀ b, finished.outcome = .ok b →
      ∃ middle, (run item).on w = (.ok b, middle) ∧ later.tree = middle.tree := by
  obtain ⟨outcome, middle, attempted, further⟩ := Job.on_bind_ok success
  obtain ⟨_, last, reported, built⟩ := Job.on_bind_ok further
  cases built
  have left := tree_forM_report reported
  rw [Job.on_attempt] at attempted
  obtain ⟨returned, rfl⟩ := Prod.mk.inj attempted
  refine ⟨rfl, ?_⟩
  rintro b rfl
  cases pooled with
  | false => exact ⟨_, Prod.ext (Except.ok.inj returned) rfl, left⟩
  | true =>
      obtain ⟨alone, ran, same⟩ := quietly_ok (Prod.ext (Except.ok.inj returned) rfl)
      exact ⟨alone, ran, left.trans same⟩

/-! ## Results in the order of the items -/

def succeeded (start : Nat) (results : List β) : List (Finished Fault β) :=
  (results.zipIdx start).map fun (result, index) => ⟨index, .ok result⟩

theorem ran_of_runOne {pooled : Bool} {items : List α} {start : Nat} {tree later : Tree}
    {finished : List (Finished Fault β)}
    (ran : Ran (fun (item, index) => runOne pooled run index item) tree (items.zipIdx start)
      finished later)
    (noFault : firstFault? finished = none) :
    ∃ results, finished = succeeded start results ∧ results.length = items.length ∧
      Ran run tree items results later := by
  induction items generalizing start tree finished with
  | nil =>
      cases ran
      exact ⟨[], rfl, rfl, .nil⟩
  | cons item rest ih =>
      cases ran with
      | cons first others =>
          rename_i result more
          obtain ⟨place, alone⟩ := runOne_ok first
          obtain ⟨index, outcome⟩ := result
          cases outcome with
          | error fault => cases noFault
          | ok b =>
              obtain ⟨middle, ran, same⟩ := alone b rfl
              rw [same] at others
              obtain ⟨results, rfl, length, further⟩ := ih others noFault
              obtain rfl : index = start := place
              exact ⟨b :: results, rfl, by simp [length], .cons ran further⟩

theorem filterMap_resultAt? (start : Nat) (results : List β) :
    (List.range' start results.length).filterMap (resultAt? (succeeded start results)) =
      results := by
  induction results generalizing start with
  | nil => rfl
  | cons result rest ih =>
      have here : resultAt? (succeeded start (result :: rest)) start = some result := by
        simp [resultAt?, succeeded, Except.toOption]
      have behind : ∀ index ∈ List.range' (start + 1) rest.length,
          resultAt? (succeeded start (result :: rest)) index =
            resultAt? (succeeded (start + 1) rest) index := by
        intro index member
        have later : start ≠ index := by
          have bounds := List.mem_range'_1.mp member
          omega
        simp [resultAt?, succeeded, later]
      rw [List.length_cons, List.range'_succ, List.filterMap_cons, here,
        List.filterMap_congr behind, ih]

theorem ran_of_forkJoin {workers : Int} {items : List α} {results : List β} {w later : Workspace}
    (success : (forkJoin workers run items).on w = (.ok results, later)) :
    Ran run w.tree items results later.tree := by
  obtain ⟨_, started, reported, further⟩ := Job.on_bind_ok success
  have start := tree_forM_report reported
  split at further
  · obtain ⟨_, _, stopped, _⟩ := Job.on_bind_ok further
    cases stopped
  · obtain ⟨finished, last, ran, joined⟩ := Job.on_bind_ok further
    rw [Job.on_ofExcept] at joined
    obtain ⟨joined, rfl⟩ := Prod.mk.inj joined
    unfold join at joined
    split at joined
    · cases joined
    · rename_i noFault
      obtain ⟨outcomes, rfl, length, others⟩ := ran_of_runOne (ran_of_mapM ran) noFault
      rw [← length, List.range_eq_range', filterMap_resultAt?] at joined
      cases joined
      rwa [start] at others

/-! ## Tasks that all succeed -/

theorem runOne_of_ok {item : α} {result : β} {w later : Workspace}
    (success : (run item).on w = (.ok result, later)) (index : Nat) :
    (runOne false run index item).on w = (.ok ⟨index, .ok result⟩, later) := by
  unfold runOne
  rw [Job.on_bind_of_ok (Job.on_attempt _ w), if_neg Bool.false_ne_true, success]
  rfl

/-- A batch of one item is the task for it. -/
theorem on_forkJoin_single {workers : Int} {item : α} {result : β} {w later : Workspace}
    (success : (run item).on w = (.ok result, later)) :
    (forkJoin workers run [item]).on w = (.ok [result], later) := by
  have alone : isPooled workers [item].length = false := by simp [isPooled]
  have one := runOne_of_ok success 0
  have ran : ([item].zipIdx.mapM fun (item, index) => runOne false run index item).on w =
      (.ok [⟨0, .ok result⟩], later) := by
    rw [List.zipIdx_singleton, List.mapM_cons, Job.on_bind_of_ok one]
    rfl
  have quiet : (([] : List Event).forM Job.report).on w = (.ok (), w) := rfl
  unfold forkJoin
  simp only [alone, poolEvents, poolFault?, Bool.false_and, Bool.false_eq_true, ↓reduceIte]
  rw [Job.on_bind_of_ok quiet, Job.on_bind_of_ok ran]
  rfl

theorem mapM_runOne_ok (each : ∀ item w, ∃ result later, (run item).on w = (.ok result, later))
    (items : List α) (start : Nat) (w : Workspace) :
    ∃ results later,
      ((items.zipIdx start).mapM fun (item, index) => runOne false run index item).on w =
        (.ok (succeeded start results), later) := by
  induction items generalizing start w with
  | nil => exact ⟨[], w, rfl⟩
  | cons item rest ih =>
      obtain ⟨result, middle, first⟩ := each item w
      obtain ⟨results, later, others⟩ := ih (start + 1) middle
      refine ⟨result :: results, later, ?_⟩
      rw [List.zipIdx_cons, List.mapM_cons, Job.on_bind_of_ok (runOne_of_ok first start),
        Job.on_bind_of_ok others]
      rfl

theorem firstFault?_succeeded (start : Nat) (results : List β) :
    firstFault? (succeeded start results) = none := by
  refine List.findSome?_eq_none_iff.mpr fun finished member => ?_
  obtain ⟨result, -, rfl⟩ := List.mem_map.mp member
  rfl

/-- A batch without a pool whose tasks all succeed has a result. -/
theorem forkJoin_ok (each : ∀ item w, ∃ result later, (run item).on w = (.ok result, later))
    (items : List α) (w : Workspace) :
    ∃ results later, (forkJoin 1 run items).on w = (.ok results, later) := by
  have alone : isPooled 1 items.length = false := rfl
  have quiet : (([] : List Event).forM Job.report).on w = (.ok (), w) := rfl
  obtain ⟨results, later, ran⟩ := mapM_runOne_ok each items 0 w
  unfold forkJoin
  simp only [alone, poolEvents, poolFault?, Bool.false_and, Bool.false_eq_true, ↓reduceIte]
  rw [Job.on_bind_of_ok quiet, Job.on_bind_of_ok ran, Job.on_ofExcept]
  unfold join
  rw [firstFault?_succeeded]
  exact ⟨_, later, rfl⟩

end FlowCorpus.Batch
