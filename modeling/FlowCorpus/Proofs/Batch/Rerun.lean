import FlowCorpus.Proofs.Batch.Generators

/-!
# Running a generator again

A generator that runs a second time right after the first finds everything done. It writes over a
file that was there only if the path of an output did not lead to that file before the directories
on the way were made.
-/

set_option autoImplicit false

namespace FlowCorpus.Batch

open FlowCorpus.Assembly FlowCorpus.Exchange FlowCorpus.Feature FlowCorpus.Graph
open FlowCorpus.Json FlowCorpus.Program FlowCorpus.Storage

variable {α : Type} {tree base : Tree}

/-! ## Outputs one after the other -/

/-- An action that is idle once it was done, and that stops again where it stopped. -/
structure Repeatable (step : Tree → Except Fault Outcome × Tree) : Prop where
  extended : ∀ tree, Tree.Extends tree (step tree).2
  again : ∀ tree last, Tree.Extends (step tree).2 last →
    (step last).2 = last ∧ (step last).1 ≠ .ok .processed
  stops : ∀ tree fault, (step tree).1 = .error fault →
    ∃ other, (step (step tree).2).1 = .error other

theorem tree_tryGraph (options : GraphOptions) (architecture : Option Architecture)
    (stem : String) (f : Function) (tree : Tree) :
    (tryGraph options architecture stem f tree).2 =
      (drawGraph options architecture stem f tree).2 := by
  unfold tryGraph
  rcases drawGraph options architecture stem f tree with ⟨_ | _, later⟩ <;> rfl

theorem repeatable_tryGraph (options : GraphOptions) (architecture : Option Architecture)
    (stem : String) (f : Function) : Repeatable (tryGraph options architecture stem f) where
  extended tree := by
    rw [tree_tryGraph]
    exact extends_produce _ _ _ tree
  again tree last extended := by
    rw [tree_tryGraph] at extended
    obtain ⟨again, ran, undone⟩ := produce_again (fun _ => rfl) rfl extended
    unfold tryGraph drawGraph
    rw [ran]
    cases again with
    | ok production => cases production <;> simp_all [graphOutcome]
    | error fault =>
        refine ⟨rfl, ?_⟩
        dsimp only
        split <;> exact nofun
  stops tree fault stopped := by
    unfold tryGraph at stopped ⊢
    rcases drawn : drawGraph options architecture stem f tree with ⟨first | production, later⟩
    · rw [drawn] at stopped
      dsimp only at stopped ⊢
      -- A fault of the tree is a failure of the function, so that it was one of finding out.
      cases failure : first.isFunctionFailure with
      | true => simp [failure] at stopped
      | false =>
          rcases produce_error_again _ drawn with ⟨store, -⟩ | ⟨-, again⟩
          · rw [store.isFunctionFailure] at failure
            cases failure
          · have same : drawGraph options architecture stem f later = (.error first, later) := again
            rw [same]
            exact ⟨first, by simp [failure]⟩
    · rw [drawn] at stopped
      cases stopped

/-- A generator with its options. -/
inductive Generator where
  | graphs (options : GraphOptions)
  | corpus (options : CorpusOptions)
  | summaries (directory : Path) (architecture : Option Architecture)
  | callGraphs (directory : Path) (hop : Bool)
  | metadata (directory : Path) (extended : Bool)

namespace Generator

def fault? : Generator → Option Fault
  | .corpus options => options.fault?
  | _ => none

def run : Generator → Path → Job Report
  | .graphs options => graphsOfFile options
  | .corpus options => corpusOfFile options
  | .summaries directory architecture => summariesOfFile directory architecture
  | .callGraphs directory hop => callGraphsOfFile directory hop
  | .metadata directory extended => metadataOfFile directory extended

theorem tree_contained (result : Except Fault Report × Tree) :
    (contained result).2 = result.2 := by
  rcases result with ⟨_ | _, later⟩ <;> rfl

/-- A tree that is later than another one, with nothing replaced but what may be. -/
structure Spares (changed : Location → Prop) (base tree : Tree) : Prop where
  grows : Tree.Grows changed base tree
  extended : Tree.Extends base tree

variable {changed : Location → Prop}

theorem Spares.produce {kind : Entry → Bool} {path : Path} (spares : Spares changed base tree)
    (files : ∀ content, kind (.file content) = true) (drawn : Drawn)
    (hidden : base.Hidden path → changed (base.destination path)) :
    Spares changed base (produce kind path drawn tree).2 where
  grows := produce_spares files spares.grows spares.extended hidden rfl
  extended := spares.extended.trans (extends_produce kind path drawn tree)

theorem path_of_functionsFrom {input : Path} {read : Except Fault String} {loaded : FunctionFile}
    (found : functionsFrom input read = .ok (some loaded)) : loaded.path = input := by
  unfold functionsFrom at found
  rcases records : recordsFrom Function.ofJson input read with _ | _ | records <;>
    rw [records] at found <;> cases found
  rfl

end Generator
end FlowCorpus.Batch
