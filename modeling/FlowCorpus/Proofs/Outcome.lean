import Mathlib.Data.List.Forall2

/-!
# Outcomes

What a result of steps in a row, or of a step for every element of a list, says about the steps.
-/

set_option autoImplicit false

namespace FlowCorpus.Outcome

variable {ε α β : Type}

theorem bind_ok {source : Except ε α} {next : α → Except ε β} {b : β}
    (success : source >>= next = .ok b) : ∃ a, source = .ok a ∧ next a = .ok b := by
  cases source with
  | error fault => cases success
  | ok a => exact ⟨a, rfl, success⟩

theorem bind_error {source : Except ε α} {next : α → Except ε β} {fault : ε}
    (failure : source >>= next = .error fault) :
    source = .error fault ∨ ∃ a, source = .ok a ∧ next a = .error fault := by
  cases source with
  | error first =>
      cases failure
      exact .inl rfl
  | ok a => exact .inr ⟨a, rfl, failure⟩

theorem map_ok {g : α → β} {source : Except ε α} {b : β} (success : source.map g = .ok b) :
    ∃ a, source = .ok a ∧ g a = b := by
  cases source with
  | error fault => cases success
  | ok a => exact ⟨a, rfl, Except.ok.inj success⟩

theorem map_error {g : α → β} {source : Except ε α} {fault : ε}
    (failure : source.map g = .error fault) : source = .error fault := by
  cases source with
  | error first =>
      cases failure
      rfl
  | ok a => cases failure

theorem mapM_ok {step : α → Except ε β} {items : List α} {results : List β}
    (success : items.mapM step = .ok results) :
    List.Forall₂ (fun item result => step item = .ok result) items results := by
  induction items generalizing results with
  | nil =>
      rw [List.mapM_nil] at success
      cases success
      exact .nil
  | cons item rest ih =>
      rw [List.mapM_cons] at success
      obtain ⟨result, first, success⟩ := bind_ok success
      obtain ⟨others, remaining, shape⟩ := bind_ok success
      cases shape
      exact .cons first (ih remaining)

theorem mapM_error {step : α → Except ε β} {items : List α} {fault : ε}
    (failure : items.mapM step = .error fault) : ∃ item ∈ items, step item = .error fault := by
  induction items with
  | nil => cases failure
  | cons item rest ih =>
      rw [List.mapM_cons] at failure
      rcases bind_error failure with first | ⟨result, _, later⟩
      · exact ⟨item, List.mem_cons_self, first⟩
      · rcases bind_error later with remaining | ⟨others, _, shape⟩
        · obtain ⟨culprit, member, failed⟩ := ih remaining
          exact ⟨culprit, List.mem_cons_of_mem item member, failed⟩
        · cases shape

theorem getElem?_of_forall₂ {relation : α → β → Prop} {items : List α} {results : List β}
    (related : List.Forall₂ relation items results) {place : Nat} {item : α}
    (stands : items[place]? = some item) :
    ∃ result, results[place]? = some result ∧ relation item result := by
  induction related generalizing place with
  | nil => cases stands
  | cons first _ ih =>
      cases place with
      | zero =>
          cases stands
          exact ⟨_, rfl, first⟩
      | succ place => exact ih (by simpa only [List.getElem?_cons_succ] using stands)

/-- What every pair of related elements shows of the first one holds for all of them. -/
theorem forall_of_forall₂ {relation : α → β → Prop} {holds : α → Prop} {items : List α}
    {results : List β} (related : List.Forall₂ relation items results)
    (each : ∀ a b, relation a b → holds a) : ∀ a ∈ items, holds a :=
  ((List.forall₂_and_left _ _).mp
    (related.imp fun a b here => (⟨each a b here, here⟩ : holds a ∧ relation a b))).1

/-- A step that gives something for every element gives it at the same place. -/
theorem getElem?_filterMap {step : α → Option β} {items : List α}
    (total : ∀ item ∈ items, (step item).isSome) (place : Nat) :
    (items.filterMap step)[place]? = items[place]?.bind step := by
  induction items generalizing place with
  | nil => rfl
  | cons item rest ih =>
      obtain ⟨result, found⟩ := Option.isSome_iff_exists.mp (total item List.mem_cons_self)
      rw [List.filterMap_cons_some found]
      cases place with
      | zero => simp only [List.getElem?_cons_zero, Option.bind_some, found]
      | succ place =>
          simp only [List.getElem?_cons_succ]
          exact ih (fun other member => total other (List.mem_cons_of_mem item member)) place

/-! ## Success -/

def Succeeds (outcome : Except ε α) : Prop :=
  ∃ a, outcome = .ok a

@[simp] theorem succeeds_ok (a : α) : Succeeds (.ok a : Except ε α) := ⟨a, rfl⟩

@[simp] theorem succeeds_pure (a : α) : Succeeds (pure a : Except ε α) := ⟨a, rfl⟩

@[simp] theorem not_succeeds_error (fault : ε) : ¬ Succeeds (.error fault : Except ε α) := by
  rintro ⟨a, impossible⟩
  cases impossible

theorem succeeds_bind {source : Except ε α} {next : α → Except ε β} :
    Succeeds (source >>= next) ↔ ∃ a, source = .ok a ∧ Succeeds (next a) := by
  constructor
  · rintro ⟨b, success⟩
    obtain ⟨a, first, second⟩ := bind_ok success
    exact ⟨a, first, b, second⟩
  · rintro ⟨a, rfl, b, second⟩
    exact ⟨b, second⟩

/-- Steps that do not depend on each other succeed together. -/
theorem succeeds_bind_and {source : Except ε α} {next : α → Except ε β} {further : Prop}
    (independent : ∀ a, Succeeds (next a) ↔ further) :
    Succeeds (source >>= next) ↔ Succeeds source ∧ further := by
  rw [succeeds_bind]
  constructor
  · rintro ⟨a, first, second⟩
    exact ⟨⟨a, first⟩, (independent a).mp second⟩
  · rintro ⟨⟨a, first⟩, second⟩
    exact ⟨a, first, (independent a).mpr second⟩

@[simp] theorem succeeds_map {g : α → β} {source : Except ε α} :
    Succeeds (g <$> source) ↔ Succeeds source := by
  cases source <;> simp [Functor.map, Except.map]

theorem succeeds_mapM {step : α → Except ε β} {items : List α} :
    Succeeds (items.mapM step) ↔ ∀ item ∈ items, Succeeds (step item) := by
  induction items with
  | nil => simp
  | cons item rest ih =>
      rw [List.mapM_cons, List.forall_mem_cons, ← ih]
      exact succeeds_bind_and fun result => by simp

end FlowCorpus.Outcome
