import Mathlib.Data.Finset.Card
import FlowCorpus.Proofs.Storage.Effect
import FlowCorpus.Proofs.Storage.Preparation

/-!
# Files turn by turn

The files of a tree, and how their number changes when items take turns on it. A turn that puts one
file at a location makes a new file or replaces one; the turns that change no file do not count.
-/

set_option autoImplicit false

namespace FlowCorpus.Storage.Tree

variable {α β : Type} {tree middle later : Tree} {path : Path} {location : Location}

/-! ## Files -/

def fileLocations (tree : Tree) : Finset Location :=
  (tree.entries.map Prod.fst).toFinset.filter fun location =>
    (tree.entry? location).any Entry.isFile

theorem mem_entries_of_file {content : Content}
    (there : tree.entry? location = some (.file content)) :
    (location, .file content) ∈ tree.entries := by
  unfold entry? at there
  split at there
  · cases there
  · obtain ⟨before, after, shape, -⟩ := List.lookup_eq_some_iff.mp there
    simp [shape]

theorem mem_fileLocations :
    location ∈ tree.fileLocations ↔ ∃ content, tree.entry? location = some (.file content) := by
  have file : (tree.entry? location).any Entry.isFile = true ↔
      ∃ content, tree.entry? location = some (.file content) := by
    cases tree.entry? location with
    | none => simp
    | some entry => cases entry <;> simp [Entry.isFile]
  simp only [fileLocations, Finset.mem_filter, List.mem_toFinset, file, and_iff_right_iff_imp]
  rintro ⟨content, there⟩
  exact List.mem_map_of_mem (mem_entries_of_file there)

/-- Of the files that are listed in a later tree, those that were not there before are new. -/
theorem card_new_le (known new : List Location)
    (files : (later.entries.filter fun entry => entry.2.isFile).map Prod.fst = known ++ new)
    (before : ∀ location ∈ known, location ∈ tree.fileLocations) :
    (later.fileLocations \ tree.fileLocations).card ≤ new.length := by
  have inside : later.fileLocations \ tree.fileLocations ⊆ new.toFinset := by
    intro location member
    obtain ⟨after, absent⟩ := Finset.mem_sdiff.mp member
    obtain ⟨content, there⟩ := mem_fileLocations.mp after
    have listed : location ∈ known ++ new := by
      rw [← files]
      refine List.mem_map.mpr ⟨(location, .file content), ?_, rfl⟩
      exact List.mem_filter.mpr ⟨mem_entries_of_file there, rfl⟩
    rw [List.mem_toFinset]
    exact (List.mem_append.mp listed).resolve_left fun old => absent (before location old)
  exact (Finset.card_le_card inside).trans (List.toFinset_card_le new)

def SameFiles (tree later : Tree) : Prop :=
  ∀ location content, later.entry? location = some (.file content) ↔
    tree.entry? location = some (.file content)

/-- A later tree has a file at a location, and elsewhere the same files. -/
structure Puts (location : Location) (tree later : Tree) : Prop where
  stands : ∃ content, later.entry? location = some (.file content)
  others : ∀ other, other ≠ location → ∀ content,
    later.entry? other = some (.file content) ↔ tree.entry? other = some (.file content)

theorem SameFiles.refl (tree : Tree) : SameFiles tree tree :=
  fun _ _ => Iff.rfl

theorem SameFiles.fileLocations (same : SameFiles tree later) :
    later.fileLocations = tree.fileLocations := by
  ext location
  simp only [mem_fileLocations, same location]

theorem Puts.fileLocations (puts : Puts location tree later) :
    later.fileLocations = insert location tree.fileLocations := by
  ext other
  rw [Finset.mem_insert, mem_fileLocations, mem_fileLocations]
  by_cases here : other = location
  · subst here
    exact iff_of_true puts.stands (.inl rfl)
  · simp only [puts.others other here, here, false_or]

theorem sameFiles_ensured (tree : Tree) (path : Path) : SameFiles tree (tree.ensured path).2 :=
  fun location _ => ⟨file_of_ensured, fun there => (grows_ensured rfl).others location _ there id⟩

/-- A text that is put at a path is a file there; one that could not be put changes no file. -/
theorem files_of_place {text : Except Fault String} {outcome : Except Fault Unit}
    (placed : tree.place path text = (outcome, later)) :
    (outcome = .ok () ∧ Puts (tree.destination path) tree later) ∨
      (∃ fault, outcome = .error fault) ∧ SameFiles tree later := by
  have above := sameFiles_ensured tree path.parent
  rcases made : tree.ensured path.parent with ⟨first, middle⟩
  rw [made] at above
  have failed {fault : Fault} (stopped : tree.place path text = (.error fault, middle)) :
      (outcome = .ok () ∧ Puts (tree.destination path) tree later) ∨
        (∃ fault, outcome = .error fault) ∧ SameFiles tree later := by
    rw [stopped] at placed
    cases placed
    exact .inr ⟨⟨fault, rfl⟩, above⟩
  cases first with
  | error fault => exact failed (place_of_ensured_error made)
  | ok =>
      cases text with
      | error fault => exact failed (place_error_text made fault)
      | ok s =>
          cases written : middle.writeContent path (.text s) with
          | error fault => exact failed (by rw [place_ok_text made, written])
          | ok last =>
              rw [place_ok_text made, written] at placed
              cases placed
              obtain ⟨place, located, free, rfl⟩ := writeContent_ok written
              have here : place = tree.destination path :=
                (locate_ok located).trans
                  ((grows_ensured (congrArg Prod.snd made)).destination path)
              subst here
              refine .inl ⟨rfl, ⟨.text s, entry?_set_self free _⟩,
                fun other elsewhere content => ?_⟩
              rw [entry?_set_of_ne elsewhere]
              exact above other content

/-- A text that replaces a file at a path where none was found: the file was hidden. -/
theorem hidden_of_place {text : Except Fault String} {content : Content}
    (absent : tree.test Entry.isFile path = .ok false)
    (placed : tree.place path text = (.ok (), later))
    (there : tree.entry? (tree.destination path) = some (.file content)) : tree.Hidden path := by
  refine ⟨?_, content, there⟩
  by_contra found
  have extended : Extends tree later := by
    have made := extends_place tree path text
    rwa [placed] at made
  rcases place_cases placed with ⟨-, fault, impossible⟩ | ⟨middle, s, -, -, -, written⟩
  · cases impossible
  · -- The path is followed before as it is afterwards.
    obtain ⟨clean, short, followed⟩ := locate_ok_iff.mp (holds_of_writeContent written).1.located
    rw [extended.startOf, extended.follow_eq found, extended.destination] at followed
    rw [test_of_located (locate_ok_iff.mpr ⟨clean, short, followed⟩), there] at absent
    cases absent

/-! ## Trees without gaps -/

theorem Paved.set (paved : tree.Paved) {entry : Entry} (located : tree.locate path = .ok location)
    (free : tree.entry? location ≠ some .directory) : Paved (tree.set location entry) := by
  -- What can be located stands in a directory.
  have parent : ∀ place name, location = place ++ [name] → tree.entry? place = some .directory := by
    rintro place name rfl
    obtain ⟨root, names⟩ := path
    obtain ⟨-, -, followed⟩ := locate_ok_iff.mp located
    rcases names.eq_nil_or_concat' with rfl | ⟨above, last, rfl⟩
    · rw [locate_ok located] at free
      exact absurd (entry?_startOf tree _) free
    · obtain ⟨reached, -, directory, -, shape⟩ := follow_concat_ok followed
      unfold next at shape
      split at shape
      · -- Two dots lead to a directory only.
        rcases reached.eq_nil_or_concat' with rfl | ⟨further, first, rfl⟩
        · simp at shape
        · rw [List.dropLast_concat] at shape
          have there := paved further first (by rw [directory]; rfl)
          exact absurd (shape ▸ there) free
      · obtain ⟨rfl, -⟩ := List.append_inj' shape rfl
        exact directory
  intro place name below
  have directory : tree.entry? place = some .directory := by
    by_cases same : place ++ [name] = location
    · exact parent place name same.symm
    · exact paved place name (by rwa [entry?_set_of_ne same] at below)
  rw [entry?_set_of_ne, directory]
  rintro rfl
  exact free directory

theorem Paved.place (paved : tree.Paved) (path : Path) (text : Except Fault String) :
    Paved (tree.place path text).2 := by
  refine place_keeps (fun before tree later _ made paved => ?_)
    (fun tree later content written paved => ?_) paved
  · obtain ⟨location, located, placed⟩ := Outcome.bind_ok made
    split at placed
    · cases placed
    · rename_i absent
      cases placed
      exact paved.set located (by rw [absent]; simp)
  · obtain ⟨location, located, free, rfl⟩ := writeContent_ok written
    exact paved.set located free

/-! ## Turns -/

/-- The turn of an item: what it resulted in, and the trees before and after it. -/
structure Turn (α β : Type) where
  before : Tree
  item : α
  result : β
  after : Tree

/-- Turns one after the other, from a tree to another one. -/
inductive Turns : Tree → List (Turn α β) → Tree → Prop where
  | nil (tree : Tree) : Turns tree [] tree
  | cons {before after later : Tree} {item : α} {result : β} {turns : List (Turn α β)}
      (others : Turns after turns later) :
      Turns before (⟨before, item, result, after⟩ :: turns) later

/-- Actions that all come to an end take turns. -/
theorem turns_of_inTurn {step : α → Tree → Except Fault β × Tree} {items : List α}
    (each : ∀ item ∈ items, ∀ tree, ∃ result, (step item tree).1 = .ok result) (tree : Tree) :
    ∃ turns : List (Turn α β), Turns tree turns (inTurn step items tree).2 ∧
      turns.map Turn.item = items ∧
      (inTurn step items tree).1 = .ok (turns.map Turn.result) ∧
      ∀ turn ∈ turns, step turn.item turn.before = (.ok turn.result, turn.after) := by
  induction items generalizing tree with
  | nil => exact ⟨[], .nil tree, rfl, rfl, by simp⟩
  | cons item rest ih =>
      rw [List.forall_mem_cons] at each
      obtain ⟨result, ended⟩ := each.1 tree
      have acted : step item tree = (.ok result, (step item tree).2) := Prod.ext ended rfl
      obtain ⟨turns, chain, items, results, steps⟩ := ih each.2 (step item tree).2
      rw [inTurn_cons_ok acted]
      refine ⟨⟨tree, item, result, (step item tree).2⟩ :: turns, .cons chain, ?_, ?_, ?_⟩
      · rw [List.map_cons, items]
      · dsimp only
        rw [results]
        rfl
      · rw [List.forall_mem_cons]
        exact ⟨acted, steps⟩

/-- What every turn keeps holds before each of them. -/
theorem Turns.before {holds : Tree → Prop} {turns : List (Turn α β)}
    (chain : Turns tree turns later) (each : ∀ turn ∈ turns, holds turn.before → holds turn.after)
    (start : holds tree) : ∀ turn ∈ turns, holds turn.before := by
  induction chain with
  | nil => simp
  | cons others ih =>
      rw [List.forall_mem_cons] at each ⊢
      exact ⟨start, ih each.2 (each.1 start)⟩

/-- Turns that put a file somewhere make new files, but for those that replace one. -/
theorem Turns.card_fileLocations {turns : List (Turn α β)} (chain : Turns tree turns later)
    (writes : Turn α β → Bool) (place : Turn α β → Location)
    (puts : ∀ turn ∈ turns, writes turn = true → Puts (place turn) turn.before turn.after)
    (keeps : ∀ turn ∈ turns, writes turn = false → SameFiles turn.before turn.after) :
    tree.fileLocations ⊆ later.fileLocations ∧
      later.fileLocations.card +
          turns.countP (fun turn => writes turn && place turn ∈ turn.before.fileLocations) =
        tree.fileLocations.card + turns.countP writes := by
  -- A turn that writes adds its place to the files, which is one more unless there was one.
  induction chain with
  | nil => exact ⟨subset_rfl, rfl⟩
  | @cons before after later item result turns others ih =>
      rw [List.forall_mem_cons] at puts keeps
      obtain ⟨further, counted⟩ := ih puts.2 keeps.2
      rw [List.countP_cons, List.countP_cons]
      cases wrote : writes ⟨before, item, result, after⟩ with
      | false =>
          have same := (keeps.1 wrote).fileLocations
          dsimp only at same
          rw [same] at further counted
          simpa using ⟨further, counted⟩
      | true =>
          have put := (puts.1 wrote).fileLocations
          dsimp only at put
          rw [put] at further counted
          refine ⟨(Finset.subset_insert _ _).trans further, ?_⟩
          by_cases there : place ⟨before, item, result, after⟩ ∈ before.fileLocations
          · rw [Finset.insert_eq_of_mem there] at counted
            simp [there]
            omega
          · rw [Finset.card_insert_of_notMem there] at counted
            simp [there]
            omega

end FlowCorpus.Storage.Tree
