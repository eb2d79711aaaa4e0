import FlowCorpus.Storage.Workspace

/-!
# Jobs step by step

What a job results in and the workspace that it leaves, step by step.
-/

set_option autoImplicit false

namespace FlowCorpus.Storage.Job

variable {α β : Type}

/-- What a job in a workspace results in, and the workspace that it leaves. -/
def on (job : Job α) (w : Workspace) : Except Fault α × Workspace :=
  (ExceptT.run job).run w

theorem on_bind (job : Job α) (next : α → Job β) (w : Workspace) :
    (job >>= next).on w =
      match job.on w with
      | (.ok a, later) => (next a).on later
      | (.error fault, later) => (.error fault, later) := by
  change (ExceptT.bindCont next (job.on w).1).run (job.on w).2 = _
  rcases job.on w with ⟨outcome, later⟩
  cases outcome <;> rfl

theorem on_bind_of_ok {job : Job α} {w later : Workspace} {a : α}
    (first : job.on w = (.ok a, later)) (next : α → Job β) :
    (job >>= next).on w = (next a).on later := by
  rw [on_bind, first]

theorem on_bind_of_error {job : Job α} {w later : Workspace} {fault : Fault}
    (first : job.on w = (.error fault, later)) (next : α → Job β) :
    (job >>= next).on w = (.error fault, later) := by
  rw [on_bind, first]

theorem on_bind_ok {job : Job α} {next : α → Job β} {w later : Workspace} {b : β}
    (success : (job >>= next).on w = (.ok b, later)) :
    ∃ a middle, job.on w = (.ok a, middle) ∧ (next a).on middle = (.ok b, later) := by
  rcases first : job.on w with ⟨outcome, middle⟩
  cases outcome with
  | ok a => exact ⟨a, middle, rfl, (on_bind_of_ok first next).symm.trans success⟩
  | error fault =>
      rw [on_bind_of_error first] at success
      cases success

@[simp] theorem on_ofExcept (outcome : Except Fault α) (w : Workspace) :
    (ofExcept outcome).on w = (outcome, w) := by
  cases outcome <;> rfl

@[simp] theorem on_ask (question : Tree → Except Fault α) (w : Workspace) :
    (ask question).on w = (question w.tree, w) :=
  on_ofExcept (question w.tree) w

theorem on_attempt (job : Job α) (w : Workspace) :
    (attempt job).on w = (.ok (job.on w).1, (job.on w).2) := rfl

theorem on_map (g : α → β) (job : Job α) (w : Workspace) :
    (g <$> job).on w = ((job.on w).1.map g, (job.on w).2) := by
  rw [← bind_pure_comp, on_bind]
  rcases job.on w with ⟨outcome, later⟩
  cases outcome <;> rfl

/-- Steps whose results do not depend on the workspace have the result of those steps in a row. -/
theorem on_foldlM {step : β → α → Job β} {next : β → α → Except Fault β}
    (each : ∀ state item w, ((step state item).on w).1 = next state item) (items : List α)
    (state : β) (w : Workspace) :
    ((items.foldlM step state).on w).1 = items.foldlM next state := by
  induction items generalizing state w with
  | nil => rfl
  | cons item rest ih =>
      rw [List.foldlM_cons, List.foldlM_cons, on_bind, ← each state item w]
      rcases (step state item).on w with ⟨outcome, later⟩
      cases outcome with
      | ok reached => exact ih reached later
      | error fault => rfl

/-- What every step preserves holds at the end of steps that succeed. -/
theorem foldlM_ok (holds : β → Workspace → Prop) {step : β → α → Job β} {items : List α}
    (each : ∀ item ∈ items, ∀ state w next later, holds state w →
      (step state item).on w = (.ok next, later) → holds next later)
    {state final : β} {w later : Workspace} (start : holds state w)
    (success : (items.foldlM step state).on w = (.ok final, later)) : holds final later := by
  induction items generalizing state w with
  | nil =>
      cases success
      exact start
  | cons item rest ih =>
      rw [List.foldlM_cons] at success
      obtain ⟨next, middle, first, others⟩ := on_bind_ok success
      rw [List.forall_mem_cons] at each
      exact ih each.2 (each.1 state w next middle start first) others

theorem on_change_ok {step : Tree → Except Fault Tree} {w later : Workspace}
    (success : (change step).on w = (.ok (), later)) : step w.tree = .ok later.tree := by
  obtain ⟨tree, middle, asked, left⟩ := on_bind_ok success
  rw [on_ask] at asked
  cases changed : step w.tree with
  | error fault => rw [changed] at asked; cases asked
  | ok tree =>
      rw [changed] at asked
      cases asked
      cases left
      rfl

end FlowCorpus.Storage.Job
