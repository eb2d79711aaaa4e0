import FlowCorpus.Storage.Workspace

/-!
# Fork and join

Independent tasks, one for every item of a batch. All of them run, whether or not others fail. The
results come in the order of the items; if a task fails, its fault is raised after the last task has
finished, the first one to fail counting. A batch whose pool cannot be made runs no task.
-/

set_option autoImplicit false

namespace FlowCorpus.Batch

open FlowCorpus.Storage

variable {α β ε : Type}

structure Finished (ε β : Type) where
  index : Nat
  outcome : Except ε β

def firstFault? (finished : List (Finished ε β)) : Option ε :=
  finished.findSome? fun f =>
    match f.outcome with
    | .ok _ => none
    | .error fault => some fault

def resultAt? (finished : List (Finished ε β)) (index : Nat) : Option β :=
  (finished.find? fun f => f.index == index).bind fun f => f.outcome.toOption

/-- The results of finished tasks in the order of the items, or the first fault. -/
def join (count : Nat) (finished : List (Finished ε β)) : Except ε (List β) :=
  match firstFault? finished with
  | some fault => .error fault
  | none => .ok ((List.range count).filterMap (resultAt? finished))

def failures (problem : ε → String) (finished : List (Finished ε β)) : List Event :=
  finished.filterMap fun f =>
    match f.outcome with
    | .ok _ => none
    | .error fault => some (.taskFailed f.index (problem fault))

/-- Whether a batch goes to a pool of workers: more than one worker and more than one task. -/
def isPooled (workers : Int) (tasks : Nat) : Bool :=
  1 < workers && 1 < tasks

def poolEvents (workers : Int) (tasks : Nat) : List Event :=
  if isPooled workers tasks then [.poolStarted workers.toNat tasks] else []

/-- Whether a pool can be made. Its queue has one place more than there are workers, and counts its
places in thirty-two bits with a sign. -/
def hasPool (workers : Int) : Bool :=
  workers + 1 < Fault.intLimit

/-- Why a batch does not start: it needs a pool of more workers than a pool can have. -/
def poolFault? (workers : Int) (tasks : Nat) : Option Fault :=
  if isPooled workers tasks && !hasPool workers then some .tooManyWorkers else none

/-- Runs a task without keeping what it reports; workers keep their own journals. -/
def quietly (task : Job β) : Job β := do
  let journal := (← get).journal
  let result ← Job.attempt task
  modify fun w => { w with journal }
  Job.ofExcept result

def runOne (pooled : Bool) (run : α → Job β) (index : Nat) (item : α) :
    Job (Finished Fault β) := do
  let outcome ← Job.attempt (if pooled then quietly (run item) else run item)
  let finished : Finished Fault β := ⟨index, outcome⟩
  (failures Fault.logText [finished]).forM Job.report
  return finished

def forkJoin (workers : Int) (run : α → Job β) (items : List α) : Job (List β) := do
  let pooled := isPooled workers items.length
  (poolEvents workers items.length).forM Job.report
  if let some fault := poolFault? workers items.length then throw fault
  let finished ← items.zipIdx.mapM fun (item, index) => runOne pooled run index item
  Job.ofExcept (join items.length finished)

end FlowCorpus.Batch
