import FlowCorpus.Batch.CallGraphs
import FlowCorpus.Batch.Corpora
import FlowCorpus.Batch.Metadata
import FlowCorpus.Batch.Summaries
import FlowCorpus.Proofs.Batch.Layouts
import FlowCorpus.Proofs.Storage.Effect

/-!
# Outputs

Every output is produced alike: what is there is left alone, and otherwise a text is put at the
path, if there is one. Making the output once more, from the tree that is left or any later one,
changes nothing.
-/

set_option autoImplicit false

namespace FlowCorpus.Batch

open FlowCorpus.Assembly FlowCorpus.Exchange FlowCorpus.Feature FlowCorpus.Graph
open FlowCorpus.Json FlowCorpus.Program FlowCorpus.Storage

/-! ## One output -/

/-- What came of an output: something was there, there is nothing to write, or it was written. -/
inductive Production where
  | present
  | nothing
  | written
deriving DecidableEq

/-- What is there to write: the fault of finding out, nothing, or a text. The text may be a fault
that comes up after the directories are made. -/
abbrev Drawn := Except Fault (Option (Except Fault String))

def deliver (path : Path) (drawn : Drawn) (tree : Tree) : Except Fault Production × Tree :=
  match drawn with
  | .error fault => (.error fault, tree)
  | .ok none => (.ok .nothing, tree)
  | .ok (some text) =>
    match tree.place path text with
    | (.ok (), later) => (.ok .written, later)
    | (.error fault, later) => (.error fault, later)

/-- Puts a text at a path, unless something of a kind is there. -/
def produce (kind : Entry → Bool) (path : Path) (drawn : Drawn) (tree : Tree) :
    Except Fault Production × Tree :=
  match tree.test kind path with
  | .error fault => (.error fault, tree)
  | .ok true => (.ok .present, tree)
  | .ok false => deliver path drawn tree

variable {kind : Entry → Bool} {path : Path} {drawn : Drawn} {tree later last base : Tree}
  {outcome : Except Fault Production}

theorem deliver_some (path : Path) (text : Except Fault String) (tree : Tree) :
    deliver path (.ok (some text)) tree =
      ((tree.place path text).1.map fun _ => .written, (tree.place path text).2) := by
  unfold deliver
  dsimp only
  rcases tree.place path text with ⟨_ | _, later⟩ <;> rfl

/-- The ways in which an output comes about. -/
theorem produce_cases (produced : produce kind path drawn tree = (outcome, later)) :
    (∃ fault, tree.test kind path = .error fault ∧ outcome = .error fault ∧ later = tree) ∨
      (tree.test kind path = .ok true ∧ outcome = .ok .present ∧ later = tree) ∨
      (tree.test kind path = .ok false ∧
        ((∃ fault, drawn = .error fault ∧ outcome = .error fault ∧ later = tree) ∨
          (drawn = .ok none ∧ outcome = .ok .nothing ∧ later = tree) ∨
          ∃ text, drawn = .ok (some text) ∧
            ((tree.place path text = (.ok (), later) ∧ outcome = .ok .written) ∨
              ∃ fault, tree.place path text = (.error fault, later) ∧
                outcome = .error fault))) := by
  unfold produce at produced
  split at produced
  · cases produced
    exact .inl ⟨_, ‹_›, rfl, rfl⟩
  · cases produced
    exact .inr (.inl ⟨‹_›, rfl, rfl⟩)
  · refine .inr (.inr ⟨‹_›, ?_⟩)
    unfold deliver at produced
    split at produced
    · cases produced
      exact .inl ⟨_, rfl, rfl, rfl⟩
    · cases produced
      exact .inr (.inl ⟨rfl, rfl, rfl⟩)
    · refine .inr (.inr ⟨_, rfl, ?_⟩)
      split at produced
      · cases produced
        exact .inl ⟨‹_›, rfl⟩
      · cases produced
        exact .inr ⟨_, ‹_›, rfl⟩

theorem extends_produce (kind : Entry → Bool) (path : Path) (drawn : Drawn) (tree : Tree) :
    Tree.Extends tree (produce kind path drawn tree).2 := by
  rcases produced : produce kind path drawn tree with ⟨outcome, later⟩
  rcases produce_cases produced with ⟨_, -, -, rfl⟩ | ⟨-, -, rfl⟩ | ⟨-, drew⟩
  · exact .refl _
  · exact .refl _
  · rcases drew with ⟨_, -, -, rfl⟩ | ⟨-, -, rfl⟩ | ⟨text, -, placed⟩
    · exact .refl _
    · exact .refl _
    · have extended := Tree.extends_place tree path text
      rcases placed with ⟨placed, -⟩ | ⟨_, placed, -⟩ <;> rwa [placed] at extended

/-- A file of an earlier tree is written over only if it was hidden then. -/
theorem produce_spares {changed : Location → Prop} (files : ∀ content, kind (.file content) = true)
    (grows : Tree.Grows changed base tree) (extended : Tree.Extends base tree)
    (hidden : base.Hidden path → changed (base.destination path))
    (produced : produce kind path drawn tree = (outcome, later)) :
    Tree.Grows changed base later := by
  rcases produce_cases produced with ⟨_, -, -, rfl⟩ | ⟨-, -, rfl⟩ | ⟨absent, drew⟩
  · exact grows
  · exact grows
  · rcases drew with ⟨_, -, -, rfl⟩ | ⟨-, -, rfl⟩ | ⟨text, -, placed⟩
    · exact grows
    · exact grows
    · rcases placed with ⟨placed, -⟩ | ⟨_, placed, -⟩
      · exact Tree.place_spares files grows extended absent hidden placed
      · exact Tree.place_spares files grows extended absent hidden placed

/-- An output that was made is not made again, now or later. -/
theorem produce_again (files : ∀ content, kind (.file content) = true)
    (produced : produce kind path drawn tree = (outcome, later))
    (extended : Tree.Extends later last) :
    ∃ again, produce kind path drawn last = (again, last) ∧ again ≠ .ok .written := by
  -- What was there is there, and what could not be written cannot be written.
  have settled (found : last.test kind path = .ok false →
      ∃ again, deliver path drawn last = (again, last) ∧ again ≠ .ok .written) :
      ∃ again, produce kind path drawn last = (again, last) ∧ again ≠ .ok .written := by
    unfold produce
    cases test : last.test kind path with
    | error fault => exact ⟨_, rfl, nofun⟩
    | ok present =>
        cases present with
        | true => exact ⟨_, rfl, nofun⟩
        | false => exact found test
  rcases produce_cases produced with ⟨fault, failed, -, rfl⟩ | ⟨present, -, rfl⟩ | ⟨-, drew⟩
  · refine settled fun absent => ?_
    rw [extended.test_error failed] at absent
    cases absent
  · refine settled fun absent => ?_
    rw [extended.test_true files present] at absent
    cases absent
  · rcases drew with ⟨fault, rfl, -, -⟩ | ⟨rfl, -, -⟩ | ⟨text, rfl, placed⟩
    · exact settled fun _ => ⟨_, rfl, nofun⟩
    · exact settled fun _ => ⟨_, rfl, nofun⟩
    · rcases placed with ⟨placed, -⟩ | ⟨fault, placed, -⟩
      · refine settled fun absent => ?_
        rw [extended.test_true files (Tree.test_of_place files placed)] at absent
        cases absent
      · refine settled fun _ => ?_
        obtain ⟨other, again⟩ := Tree.place_again placed extended
        unfold deliver
        simp only [again]
        exact ⟨_, rfl, nofun⟩

/-- A fault of an output that has a text as soon as it has any comes up again: it is one of the
tree, or one of finding out. -/
theorem produce_error_again (text : Except Fault (Option String)) {fault : Fault}
    (produced : produce Entry.isFile path (text.map (Option.map .ok)) tree =
      (.error fault, later)) :
    (Tree.IsStoreFault fault ∧ ∃ other, Tree.IsStoreFault other ∧
        produce Entry.isFile path (text.map (Option.map .ok)) later = (.error other, later)) ∨
      text = .error fault ∧
        produce Entry.isFile path (text.map (Option.map .ok)) later = (.error fault, later) := by
  rcases produce_cases produced with ⟨_, failed, same, rfl⟩ | ⟨-, impossible, -⟩ | ⟨-, drew⟩
  · cases same
    obtain ⟨-, place, rfl⟩ := Tree.test_error failed
    exact .inl ⟨.inr ⟨_, _, rfl⟩, _, .inr ⟨_, _, rfl⟩, produced⟩
  · cases impossible
  · rcases drew with ⟨_, drawn, same, rfl⟩ | ⟨-, impossible, -⟩ | ⟨content, drawn, placed⟩
    · cases same
      cases text with
      | error first =>
          cases drawn
          exact .inr ⟨rfl, produced⟩
      | ok found => cases drawn
    · cases impossible
    · rcases placed with ⟨-, impossible⟩ | ⟨_, placed, same⟩
      · cases impossible
      · cases same
        rcases text with _ | _ | s <;> cases drawn
        obtain ⟨other, again⟩ := Tree.place_again placed (.refl _)
        refine .inl ⟨Tree.place_error placed, ?_⟩
        unfold produce
        cases test : later.test Entry.isFile path with
        | error missed =>
            obtain ⟨-, place, rfl⟩ := Tree.test_error test
            exact ⟨_, .inr ⟨_, _, rfl⟩, rfl⟩
        | ok present =>
            cases present with
            | true =>
                -- A text can be put where there is a file.
                obtain ⟨written, success⟩ := Tree.place_of_isFile test s
                rw [again] at success
                cases success
            | false =>
                refine ⟨other, Tree.place_error again, ?_⟩
                simp only [deliver, Except.map, Option.map_some, again]

end FlowCorpus.Batch
