import FlowCorpus.Proofs.Storage.Growth
import FlowCorpus.Proofs.Storage.Job

/-!
# Files that were written

A file that was written holds what was written, and is read as such as long as no line end in it
has to be changed.
-/

set_option autoImplicit false

namespace FlowCorpus.Storage

open FlowCorpus.Text

namespace Tree

theorem writeContent_ok {tree later : Tree} {path : Path} {content : Content}
    (written : tree.writeContent path content = .ok later) :
    ∃ location, tree.locate path = .ok location ∧ tree.entry? location ≠ some .directory ∧
      later = tree.set location (.file content) := by
  obtain ⟨location, located, placed⟩ := Outcome.bind_ok written
  refine ⟨location, located, ?_⟩
  split at placed
  · cases placed
  · rename_i free
    cases placed
    exact ⟨free, rfl⟩

structure Holds (tree : Tree) (path : Path) (s : String) : Prop where
  located : tree.locate path = .ok (tree.destination path)
  stands : tree.entry? (tree.destination path) = some (.file (.text s))

/-- A text file is read as what it holds, every line end a line feed. -/
theorem Holds.readText {tree : Tree} {path : Path} {s : String} (holds : tree.Holds path s) :
    tree.readText path = .ok (String.ofList (normalizeLineEnds s.toList)) := by
  unfold Tree.readText
  rw [holds.located]
  simp only [bind, Except.bind, holds.stands]
  rfl

theorem Holds.grows {changed : Location → Prop} {tree later : Tree} {path : Path} {s : String}
    (holds : tree.Holds path s) (grows : Grows changed tree later)
    (kept : ¬ changed (tree.destination path)) : later.Holds path s := by
  constructor
  · rw [grows.destination]
    exact grows.locate holds.located
  · rw [grows.destination]
    exact grows.others _ _ holds.stands kept

theorem holds_of_writeContent {tree later : Tree} {path : Path} {s : String}
    (written : tree.writeContent path (.text s) = .ok later) :
    later.Holds path s ∧ Grows (· = tree.destination path) tree later := by
  obtain ⟨location, located, free, rfl⟩ := writeContent_ok written
  have grows := grows_set free (.file (.text s))
  obtain rfl := locate_ok located
  refine ⟨⟨?_, ?_⟩, grows⟩
  · rw [grows.destination]
    exact grows.locate located
  · rw [grows.destination]
    exact entry?_set_self free _

end Tree

theorem Job.grows_ensureDirectories {path : Path} {w later : Workspace}
    (ensured : (Job.ensureDirectories path).on w = (.ok (), later)) :
    Tree.Grows (fun _ => False) w.tree later.tree := by
  have grows := Tree.grows_ensureDirectories path.root w.tree path.names.reverse
  obtain ⟨_, _, read, made⟩ := Job.on_bind_ok ensured
  cases read
  obtain ⟨_, middle, changed, result⟩ := Job.on_bind_ok made
  rw [Job.on_ofExcept] at result
  cases changed
  obtain ⟨-, rfl⟩ := Prod.mk.inj result
  exact grows

theorem holds_of_writeBelow {path : Path} {s : String} {w later : Workspace}
    (written : (Job.writeBelow path s).on w = (.ok (), later)) :
    later.tree.Holds path s ∧ Tree.Grows (· = w.tree.destination path) w.tree later.tree := by
  obtain ⟨_, middle, ensured, changed⟩ := Job.on_bind_ok written
  have made := Job.grows_ensureDirectories ensured
  obtain ⟨holds, replaced⟩ := Tree.holds_of_writeContent (Job.on_change_ok changed)
  rw [made.destination] at replaced
  exact ⟨holds, (made.mono fun _ nothing => nothing.elim).trans replaced⟩

theorem normalizeLineEnds_eq_self {s : List Char} (plain : '\r' ∉ s) : normalizeLineEnds s = s := by
  fun_induction normalizeLineEnds s with
  | case1 => rfl
  | case2 rest _ => exact absurd List.mem_cons_self plain
  | case3 rest _ _ => exact absurd List.mem_cons_self plain
  | case4 c rest _ _ ih => rw [ih fun member => plain (List.mem_cons_of_mem c member)]

/-- A text without carriage returns is read as it is. -/
theorem Tree.Holds.readText_plain {tree : Tree} {path : Path} {s : String}
    (holds : tree.Holds path s) (plain : '\r' ∉ s.toList) : tree.readText path = .ok s := by
  rw [holds.readText, normalizeLineEnds_eq_self plain, String.ofList_toList]

/-- A text without carriage returns that a job wrote is read back as it is. -/
theorem readText_of_writeBelow {path : Path} {s : String} {w later : Workspace}
    (plain : '\r' ∉ s.toList) (written : (Job.writeBelow path s).on w = (.ok (), later)) :
    later.tree.readText path = .ok s :=
  (holds_of_writeBelow written).1.readText_plain plain

end FlowCorpus.Storage
