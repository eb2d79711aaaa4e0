import FlowCorpus.Journal
import FlowCorpus.Storage.Tree

/-!
# Workspaces

A file tree together with the journal of what is done to it. A task runs in a workspace and may stop
at a fault; what it wrote and reported before stays.
-/

set_option autoImplicit false

namespace FlowCorpus.Storage

structure Workspace where
  tree : Tree := {}
  journal : List Event := []

abbrev Job (α : Type) := ExceptT Fault (StateM Workspace) α

namespace Job

variable {α : Type}

def report (event : Event) : Job Unit :=
  modify fun w => { w with journal := w.journal ++ [event] }

def ofExcept : Except Fault α → Job α
  | .ok a => pure a
  | .error fault => throw fault

def ofTraced (t : Traced α) : Job α := do
  let (result, events) := t.run
  modify fun w => { w with journal := w.journal ++ events }
  ofExcept result

def ask (question : Tree → Except Fault α) : Job α := do
  ofExcept (question (← get).tree)

def change (step : Tree → Except Fault Tree) : Job Unit := do
  let tree ← ask step
  modify fun w => { w with tree }

def ensureDirectories (path : Path) : Job Unit := do
  let (result, tree) := Tree.ensureDirectories path.root (← get).tree path.names.reverse
  modify fun w => { w with tree }
  ofExcept result

def writeText (path : Path) (s : String) : Job Unit :=
  change fun tree => tree.writeContent path (.text s)

/-- Writes a text to the file at a path after making the directories above it. -/
def writeBelow (path : Path) (s : String) : Job Unit := do
  ensureDirectories path.parent
  writeText path s

def place (path : Path) (content : Content) : Job Unit := do
  ensureDirectories path.parent
  change fun tree => tree.writeContent path content

/-- Runs a task; a fault is its result and stops nothing. -/
def attempt (task : Job α) : Job (Except Fault α) :=
  ExceptT.lift task.run

end Job
end FlowCorpus.Storage
