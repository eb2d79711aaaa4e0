import FlowCorpus.Journal

/-!
# Journals only grow

A traced computation that appends to the journal neither reads it nor takes anything from it, so
that its result is the same after any other computation. Steps that append do so in a row.
-/

set_option autoImplicit false

namespace FlowCorpus.Traced

variable {α β : Type}

/-- What a computation results in and the journal that it leaves, after some events. -/
def after (t : Traced α) (journal : List Event) : Except Fault α × List Event :=
  (ExceptT.run t).run journal

def result (t : Traced α) : Except Fault α :=
  t.run.1

/-- A computation whose result is the same after any events, and that reports behind them what it
reports after none. -/
def Appends (t : Traced α) : Prop :=
  ∀ journal, t.after journal = (t.result, journal ++ t.run.2)

theorem after_bind (t : Traced α) (next : α → Traced β) (journal : List Event) :
    (t >>= next).after journal =
      match t.after journal with
      | (.ok a, later) => (next a).after later
      | (.error fault, later) => (.error fault, later) := by
  change (ExceptT.bindCont next (t.after journal).1).run (t.after journal).2 = _
  rcases t.after journal with ⟨outcome, later⟩
  cases outcome <;> rfl

theorem appends_pure (a : α) : (pure a : Traced α).Appends := fun journal =>
  Prod.ext rfl (List.append_nil journal).symm

theorem appends_throw (fault : Fault) : (throw fault : Traced α).Appends := fun journal =>
  Prod.ext rfl (List.append_nil journal).symm

theorem appends_report (event : Event) : (report event).Appends := fun _ => rfl

theorem appends_ofExcept (outcome : Except Fault α) : (ofExcept outcome).Appends := by
  cases outcome with
  | ok a => exact appends_pure a
  | error fault => exact appends_throw fault

theorem result_ofExcept (outcome : Except Fault α) : (ofExcept outcome).result = outcome := by
  cases outcome <;> rfl

/-- The result of two steps in a row is that of the second at the result of the first. -/
theorem result_bind {t : Traced α} {next : α → Traced β} (second : ∀ a, (next a).Appends) :
    (t >>= next).result = t.result >>= fun a => (next a).result := by
  change ((t >>= next).after []).1 = (t.after []).1 >>= fun a => (next a).result
  rw [after_bind]
  rcases t.after [] with ⟨outcome, later⟩
  cases outcome with
  | ok a =>
      change ((next a).after later).1 = (next a).result
      rw [second a]
  | error fault => rfl

theorem Appends.bind {t : Traced α} {next : α → Traced β} (first : t.Appends)
    (second : ∀ a, (next a).Appends) : (t >>= next).Appends := by
  intro journal
  refine Prod.ext ?_ ?_
  · rw [result_bind second, after_bind, first journal]
    cases t.result with
    | ok a =>
        change ((next a).after _).1 = (next a).result
        rw [second a]
    | error fault => rfl
  · change ((t >>= next).after journal).2 = journal ++ ((t >>= next).after []).2
    rw [after_bind, after_bind, first journal, first []]
    cases t.result with
    | ok a =>
        change ((next a).after _).2 = journal ++ ((next a).after _).2
        rw [second a, second a]
        simp only [List.nil_append, List.append_assoc]
    | error fault => rfl

theorem result_bind_ok {t : Traced α} {next : α → Traced β} (second : ∀ a, (next a).Appends)
    {b : β} (success : (t >>= next).result = .ok b) :
    ∃ a, t.result = .ok a ∧ (next a).result = .ok b := by
  rw [result_bind second] at success
  cases first : t.result with
  | error fault => simp [first, bind, Except.bind] at success
  | ok a => exact ⟨a, rfl, by simpa [first, bind, Except.bind] using success⟩

end FlowCorpus.Traced
