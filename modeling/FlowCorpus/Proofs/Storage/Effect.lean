import FlowCorpus.Proofs.Journal
import FlowCorpus.Proofs.Storage.Placement

/-!
# What jobs do to trees

What a job results in and the tree that it leaves, whatever was reported before. Many jobs only
look for an answer in the tree, or leave it aside, and leave it as it is.
-/

set_option autoImplicit false

namespace FlowCorpus.Storage

variable {α β : Type}

/-- Actions on a tree for items one after the other, up to the first that stops at a fault. -/
def Tree.inTurn (step : α → Tree → Except Fault β × Tree) :
    List α → Tree → Except Fault (List β) × Tree
  | [], tree => (.ok [], tree)
  | item :: rest, tree =>
    match step item tree with
    | (.error fault, later) => (.error fault, later)
    | (.ok result, later) =>
      let others := inTurn step rest later
      (others.1.map (result :: ·), others.2)

section

variable {step : α → Tree → Except Fault β × Tree} {item : α} {tree later : Tree}

theorem Tree.inTurn_cons_error {fault : Fault} (acted : step item tree = (.error fault, later))
    (rest : List α) : Tree.inTurn step (item :: rest) tree = (.error fault, later) := by
  rw [Tree.inTurn, acted]

theorem Tree.inTurn_cons_ok {result : β} (acted : step item tree = (.ok result, later))
    (rest : List α) :
    Tree.inTurn step (item :: rest) tree =
      ((Tree.inTurn step rest later).1.map (result :: ·), (Tree.inTurn step rest later).2) := by
  rw [Tree.inTurn, acted]

/-- What every action keeps is kept by actions one after the other. -/
theorem Tree.inTurn_keeps {holds : Tree → Prop} {items : List α}
    (each : ∀ item ∈ items, ∀ tree, holds tree → holds (step item tree).2) (start : holds tree) :
    holds (Tree.inTurn step items tree).2 := by
  induction items generalizing tree with
  | nil => exact start
  | cons item rest ih =>
      rw [List.forall_mem_cons] at each
      have first := each.1 tree start
      rcases acted : step item tree with ⟨_ | result, middle⟩
      · rw [Tree.inTurn_cons_error acted]
        rwa [acted] at first
      · rw [Tree.inTurn_cons_ok acted]
        rw [acted] at first
        exact ih each.2 first

/-- Actions one after the other stop at a fault of one of them. -/
theorem Tree.inTurn_error {holds : Fault → Prop} {items : List α}
    (each : ∀ item tree fault, (step item tree).1 = .error fault → holds fault) {fault : Fault}
    (stopped : (Tree.inTurn step items tree).1 = .error fault) : holds fault := by
  induction items generalizing tree with
  | nil => cases stopped
  | cons item rest ih =>
      rcases acted : step item tree with ⟨_ | result, middle⟩
      · rw [Tree.inTurn_cons_error acted] at stopped
        cases stopped
        exact each item tree fault (congrArg Prod.fst acted)
      · rw [Tree.inTurn_cons_ok acted] at stopped
        cases others : (Tree.inTurn step rest middle).1 with
        | ok results => rw [others] at stopped; cases stopped
        | error first =>
            rw [others] at stopped
            cases stopped
            exact ih others

end

namespace Job

/-- A job results in, and does to the tree, what an action says, in any workspace. -/
def Acts (job : Job α) (action : Tree → Except Fault α × Tree) : Prop :=
  ∀ w, ((job.on w).1, (job.on w).2.tree) = action w.tree

/-- A job only looks for an answer in the tree. -/
def Answers (job : Job α) (answer : Tree → Except Fault α) : Prop :=
  job.Acts fun tree => (answer tree, tree)

def Aside (job : Job α) : Prop :=
  ∃ outcome, job.Answers fun _ => outcome

variable {job : Job α} {action : Tree → Except Fault α × Tree}

theorem Acts.exists_on {w : Workspace} {outcome : Except Fault α} {tree : Tree}
    (acts : job.Acts action) (acted : action w.tree = (outcome, tree)) :
    ∃ later : Workspace, job.on w = (outcome, later) ∧ later.tree = tree := by
  obtain ⟨result, left⟩ := Prod.mk.inj ((acts w).trans acted)
  exact ⟨(job.on w).2, Prod.ext result rfl, left⟩

/-- A job whose last step only has an outcome. -/
theorem Acts.exists_on_bind {next : α → Job β} {w : Workspace} {a : α} {tree : Tree}
    {outcome : Except Fault β} (acts : job.Acts action) (acted : action w.tree = (.ok a, tree))
    (last : ∀ later, (next a).on later = (outcome, later)) :
    ∃ later : Workspace, (job >>= next).on w = (outcome, later) ∧ later.tree = tree := by
  obtain ⟨later, ran, same⟩ := acts.exists_on acted
  exact ⟨later, (on_bind_of_ok ran next).trans (last later), same⟩

theorem Acts.of_on {w later : Workspace} {outcome : Except Fault α} (acts : job.Acts action)
    (ran : job.on w = (outcome, later)) : action w.tree = (outcome, later.tree) := by
  rw [← acts w, ran]

theorem Acts.congr {other : Tree → Except Fault α × Tree} (acts : job.Acts action)
    (same : ∀ tree, action tree = other tree) : job.Acts other := fun w =>
  (acts w).trans (same w.tree)

/-- A job that goes on with an answer. -/
theorem Answers.bind {answer : Tree → Except Fault α} {next : α → Job β}
    {further : α → Tree → Except Fault β × Tree} (first : job.Answers answer)
    (second : ∀ a, (next a).Acts (further a)) :
    (job >>= next).Acts fun tree =>
      match answer tree with
      | .ok a => further a tree
      | .error fault => (.error fault, tree) := by
  intro w
  obtain ⟨later, ran, same⟩ := first.exists_on (w := w) rfl
  dsimp only
  cases found : answer w.tree with
  | ok a =>
      rw [found] at ran
      rw [on_bind_of_ok ran, ← same]
      exact second a later
  | error fault =>
      rw [found] at ran
      rw [on_bind_of_error ran, same]

/-- A job that only reports something in the end. -/
theorem Acts.finish {next : α → Job β} {result : α → β} (first : job.Acts action)
    (last : ∀ a, (next a).Answers fun _ => .ok (result a)) :
    (job >>= next).Acts fun tree => ((action tree).1.map result, (action tree).2) := by
  intro w
  rcases acted : action w.tree with ⟨outcome, tree⟩
  obtain ⟨middle, ran, same⟩ := first.exists_on acted
  dsimp only
  rw [acted]
  cases outcome with
  | error fault =>
      rw [on_bind_of_error ran, same]
      rfl
  | ok a =>
      obtain ⟨later, reported, left⟩ := (last a).exists_on (w := middle) rfl
      rw [on_bind_of_ok ran, reported, left, same]
      rfl

/-! ## Single steps -/

theorem on_ofTraced (t : Traced α) (w : Workspace) :
    (ofTraced t).on w = (t.result, { w with journal := w.journal ++ t.run.2 }) :=
  on_ofExcept t.result _

theorem aside_pure (a : α) : (pure a : Job α).Aside := ⟨.ok a, fun _ => rfl⟩

theorem aside_throw (fault : Fault) : (throw fault : Job α).Aside := ⟨.error fault, fun _ => rfl⟩

theorem aside_report (event : Event) : (report event).Aside := ⟨.ok (), fun _ => rfl⟩

theorem aside_ofExcept (outcome : Except Fault α) : (ofExcept outcome).Aside :=
  ⟨outcome, fun w => by rw [on_ofExcept]⟩

theorem Aside.bind {next : α → Job β} (first : job.Aside) (second : ∀ a, (next a).Aside) :
    (job >>= next).Aside := by
  obtain ⟨outcome, answers⟩ := first
  cases outcome with
  | error fault =>
      refine ⟨.error fault, fun w => ?_⟩
      obtain ⟨later, ran, same⟩ := answers.exists_on (w := w) rfl
      rw [on_bind_of_error ran, same]
  | ok a =>
      obtain ⟨result, further⟩ := second a
      refine ⟨result, fun w => ?_⟩
      obtain ⟨later, ran, same⟩ := answers.exists_on (w := w) rfl
      rw [on_bind_of_ok ran, ← same]
      exact further later

theorem Aside.map (first : job.Aside) (g : α → β) : (g <$> job).Aside := by
  rw [← bind_pure_comp]
  exact first.bind fun a => aside_pure (g a)

theorem aside_foldlM {step : β → α → Job β} (each : ∀ state item, (step state item).Aside)
    (items : List α) (state : β) : (items.foldlM step state).Aside := by
  induction items generalizing state with
  | nil => exact aside_pure state
  | cons item rest ih =>
      rw [List.foldlM_cons]
      exact (each state item).bind ih

/-- Steps that only look for answers, one after the other. -/
theorem answers_foldlM {step : β → α → Job β} {next : Tree → β → α → Except Fault β}
    (each : ∀ state item, (step state item).Answers fun tree => next tree state item)
    (items : List α) (state : β) :
    (items.foldlM step state).Answers fun tree => items.foldlM (next tree) state := by
  induction items generalizing state with
  | nil => exact fun _ => rfl
  | cons item rest ih =>
      rw [List.foldlM_cons]
      refine ((each state item).bind ih).congr fun tree => ?_
      dsimp only
      rw [List.foldlM_cons]
      cases next tree state item <;> rfl

def outcome (job : Job α) : Except Fault α :=
  (job.on {}).1

theorem Aside.answers (aside : job.Aside) : job.Answers fun _ => job.outcome := by
  obtain ⟨outcome, answers⟩ := aside
  have result : job.outcome = outcome := congrArg Prod.fst (answers {})
  rwa [result]

/-! ## Jobs that write -/

theorem acts_ensureDirectories (path : Path) :
    (ensureDirectories path).Acts fun tree => tree.ensured path := by
  intro w
  have run : (ensureDirectories path).on w =
      (ofExcept (w.tree.ensured path).1).on { w with tree := (w.tree.ensured path).2 } := rfl
  rw [run, on_ofExcept]

theorem acts_writeText (path : Path) (s : String) :
    (writeText path s).Acts fun tree =>
      match tree.writeContent path (.text s) with
      | .ok later => (.ok (), later)
      | .error fault => (.error fault, tree) := by
  intro w
  unfold writeText change
  rw [on_bind, on_ask]
  dsimp only
  cases w.tree.writeContent path (.text s) <;> rfl

/-- A text is found out after the directories are made. -/
theorem acts_place {text : Job String} (aside : text.Aside) (path : Path) :
    (ensureDirectories path.parent >>= fun _ => text >>= fun s => writeText path s).Acts
      fun tree => tree.place path text.outcome := by
  intro w
  change _ = w.tree.place path text.outcome
  rcases made : w.tree.ensured path.parent with ⟨outcome, tree⟩
  obtain ⟨middle, ran, same⟩ := (acts_ensureDirectories path.parent).exists_on made
  cases outcome with
  | error fault => rw [on_bind_of_error ran, Tree.place_of_ensured_error made, same]
  | ok =>
      rw [on_bind_of_ok ran, aside.answers.bind (fun s => acts_writeText path s) middle, same]
      cases text.outcome with
      | error fault => rw [Tree.place_error_text made]
      | ok s => exact (Tree.place_ok_text made s).symm

theorem acts_writeBelow (path : Path) (s : String) :
    (writeBelow path s).Acts fun tree => tree.place path (.ok s) :=
  acts_place (aside_pure s) path

/-! ## Jobs for items -/

theorem acts_mapM {run : α → Job β} {step : α → Tree → Except Fault β × Tree}
    (each : ∀ item, (run item).Acts (step item)) (items : List α) :
    (items.mapM run).Acts (Tree.inTurn step items) := by
  induction items with
  | nil => exact fun _ => rfl
  | cons item rest ih =>
      intro w
      rw [List.mapM_cons]
      rcases acted : step item w.tree with ⟨_ | result, tree⟩
      · obtain ⟨middle, ran, same⟩ := (each item).exists_on acted
        rw [on_bind_of_error ran, Tree.inTurn_cons_error acted, same]
      · obtain ⟨middle, ran, rfl⟩ := (each item).exists_on acted
        rw [on_bind_of_ok ran, Tree.inTurn_cons_ok acted]
        exact (ih.finish fun results => fun _ => rfl) middle

end Job
end FlowCorpus.Storage
