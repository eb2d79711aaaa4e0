import FlowCorpus.Proofs.Outcome
import FlowCorpus.Storage.Tree

/-!
# Trees that grow

Directories that are made and files that are written change a tree at few locations: a directory
stays one, and what stands elsewhere stays as it is. A path that was followed to a location is
followed to the same one later.
-/

set_option autoImplicit false

namespace FlowCorpus.Storage.Tree

/-! ## Where a path leads -/

def next (location : Location) (name : String) : Location :=
  if name = ".." then location.dropLast else location ++ [name]

/-- The location that names lead to from a location when all of them can be followed. -/
def descend (location : Location) (names : List String) : Location :=
  names.foldl next location

def destination (tree : Tree) (path : Path) : Location :=
  descend (tree.startOf path) path.names

theorem next_of_ne {name : String} (down : name ≠ "..") (location : Location) :
    next location name = location ++ [name] :=
  if_neg down

theorem descend_append (location : Location) (names rest : List String) :
    descend location (names ++ rest) = descend (descend location names) rest :=
  List.foldl_append

theorem descend_of_forall_ne {names : List String} (down : ∀ name ∈ names, name ≠ "..")
    (location : Location) : descend location names = location ++ names := by
  induction names generalizing location with
  | nil => exact (List.append_nil location).symm
  | cons name rest ih =>
      rw [List.forall_mem_cons] at down
      unfold descend at ih ⊢
      rw [List.foldl_cons, ih down.2, next_of_ne down.1, List.append_assoc, List.singleton_append]

/-- Following names takes a directory and a short name at every step. -/
theorem follow_cons_ok {tree : Tree} {start location : Location} {name : String}
    {rest : List String} :
    tree.follow start (name :: rest) = .ok location ↔
      tree.entry? start = some .directory ∧
        (name = ".." ∨ name.utf8ByteSize ≤ nameLimit) ∧
        tree.follow (next start name) rest = .ok location := by
  rw [ Tree.follow, next]
  cases tree.entry? start with
  | none => simp
  | some found =>
      cases found with
      | file content => simp
      | directory =>
          by_cases up : name = ".."
          · simp [up]
          · by_cases long : nameLimit < name.utf8ByteSize
            · simp [up, long, Nat.not_le.mpr long]
            · simp [up, long, Nat.not_lt.mp long]

theorem follow_ok {tree : Tree} {start location : Location} {names : List String}
    (followed : tree.follow start names = .ok location) : location = descend start names := by
  induction names generalizing start with
  | nil => cases followed; rfl
  | cons name rest ih => exact ih (follow_cons_ok.mp followed).2.2

theorem locate_ok_iff {tree : Tree} {path : Path} {location : Location} :
    tree.locate path = .ok location ↔
      path.hasNull = false ∧ path.text.utf8ByteSize ≤ pathLimit ∧
        tree.follow (tree.startOf path) path.names = .ok location := by
  unfold locate
  by_cases null : path.hasNull = true
  · simp [null]
  · by_cases long : pathLimit < path.text.utf8ByteSize
    · simp [null, long, Nat.not_le.mpr long]
    · rw [if_neg null, if_neg long]
      cases tree.follow (tree.startOf path) path.names <;> simp [null, Nat.not_lt.mp long]

theorem locate_ok {tree : Tree} {path : Path} {location : Location}
    (located : tree.locate path = .ok location) : location = tree.destination path :=
  follow_ok (locate_ok_iff.mp located).2.2

/-! ## One entry set -/

theorem lookup_setEntry_self (location : Location) (entry : Entry)
    (entries : List (Location × Entry)) :
    (setEntry location entry entries).lookup location = some entry := by
  induction entries with
  | nil => simp [setEntry]
  | cons first rest ih =>
      obtain ⟨other, old⟩ := first
      by_cases same : other = location
      · simp [setEntry, same]
      · have different : (location == other) = false := by simpa using Ne.symm same
        simp only [setEntry, if_neg same, List.lookup_cons, different]
        exact ih

theorem lookup_setEntry_of_ne {location other : Location} (different : other ≠ location)
    (entry : Entry) (entries : List (Location × Entry)) :
    (setEntry location entry entries).lookup other = entries.lookup other := by
  induction entries with
  | nil => simp [setEntry, different]
  | cons first rest ih =>
      obtain ⟨there, old⟩ := first
      by_cases same : there = location
      · subst same
        have distinct : (other == there) = false := by simpa using different
        simp [setEntry, List.lookup_cons, distinct]
      · simp only [setEntry, if_neg same, List.lookup_cons, ih]

theorem entry?_set_of_ne {tree : Tree} {location other : Location} (different : other ≠ location)
    (entry : Entry) : Tree.entry? (tree.set location entry) other = tree.entry? other := by
  simp only [ entry?, set, lookup_setEntry_of_ne different]

theorem entry?_set_self {tree : Tree} {location : Location}
    (free : tree.entry? location ≠ some .directory) (entry : Entry) :
    Tree.entry? (tree.set location entry) location = some entry := by
  have below : location.isPrefixOf tree.current = false := by
    cases above : location.isPrefixOf tree.current with
    | false => rfl
    | true => exact absurd (by simp only [ entry?, above, ↓reduceIte]) free
  simp only [ entry?, set, below, Bool.false_eq_true, ↓reduceIte, lookup_setEntry_self]

/-! ## Growth -/

/-- A later tree, in which what stood at some locations may be replaced: all directories are still
there, and so is every other entry. -/
structure Grows (changed : Location → Prop) (tree later : Tree) : Prop where
  current : later.current = tree.current
  directories : ∀ location, tree.entry? location = some .directory →
    later.entry? location = some .directory
  others : ∀ location entry, tree.entry? location = some entry → ¬ changed location →
    later.entry? location = some entry

section

variable {changed wider : Location → Prop} {tree middle later : Tree}

theorem Grows.refl (changed : Location → Prop) (tree : Tree) : Grows changed tree tree :=
  ⟨rfl, fun _ there => there, fun _ _ there _ => there⟩

theorem Grows.trans (first : Grows changed tree middle) (second : Grows changed middle later) :
    Grows changed tree later where
  current := second.current.trans first.current
  directories location there := second.directories location (first.directories location there)
  others location entry there kept :=
    second.others location entry (first.others location entry there kept) kept

theorem Grows.mono (grows : Grows changed tree later)
    (part : ∀ location, changed location → wider location) : Grows wider tree later :=
  { grows with
    others := fun location entry there kept =>
      grows.others location entry there fun replaced => kept (part location replaced) }

theorem Grows.destination (grows : Grows changed tree later) (path : Path) :
    later.destination path = tree.destination path := by
  simp only [ Tree.destination, startOf, grows.current]

theorem Grows.follow (grows : Grows changed tree later) {start location : Location}
    {names : List String} (followed : tree.follow start names = .ok location) :
    later.follow start names = .ok location := by
  induction names generalizing start with
  | nil => exact followed
  | cons name rest ih =>
      obtain ⟨here, short, further⟩ := follow_cons_ok.mp followed
      exact follow_cons_ok.mpr ⟨grows.directories start here, short, ih further⟩

theorem Grows.locate (grows : Grows changed tree later) {path : Path} {location : Location}
    (located : tree.locate path = .ok location) : later.locate path = .ok location := by
  obtain ⟨clean, short, followed⟩ := locate_ok_iff.mp located
  have same : later.startOf path = tree.startOf path := by simp only [startOf, grows.current]
  exact locate_ok_iff.mpr ⟨clean, short, same ▸ grows.follow followed⟩

theorem grows_set {location : Location} (free : tree.entry? location ≠ some .directory)
    (entry : Entry) : Grows (· = location) tree (tree.set location entry) where
  current := rfl
  directories other there := by
    have elsewhere : other ≠ location := by
      rintro rfl
      exact free there
    rwa [entry?_set_of_ne elsewhere]
  others other old there kept := by rwa [entry?_set_of_ne kept]

theorem grows_makeDirectory {path : Path} (made : tree.makeDirectory path = .ok later) :
    Grows (fun _ => False) tree later := by
  obtain ⟨location, -, placed⟩ := Outcome.bind_ok made
  split at placed
  · cases placed
  · rename_i absent
    cases placed
    have grows := grows_set (by rw [absent]; exact nofun) Entry.directory
    refine { grows with others := fun other entry there _ => grows.others other entry there ?_ }
    rintro rfl
    rw [absent] at there
    cases there

theorem grows_ensureDirectory {path : Path} (ensured : tree.ensureDirectory path = .ok later) :
    Grows (fun _ => False) tree later := by
  unfold ensureDirectory at ensured
  split at ensured
  · cases ensured
    exact grows_makeDirectory ‹_›
  · split at ensured <;> cases ensured
    exact .refl _ _
  · cases ensured

theorem grows_ensureDirectories (root : String) (tree : Tree) (names : List String) :
    Grows (fun _ => False) tree (ensureDirectories root tree names).2 := by
  induction names generalizing tree with
  | nil =>
      unfold ensureDirectories
      split
      · exact grows_ensureDirectory ‹_›
      · exact .refl _ _
  | cons name above ih =>
      unfold ensureDirectories
      dsimp only
      split
      · have first := ih tree
        split
        · rename_i made
          rw [made] at first
          refine first.trans ?_
          split
          · exact grows_ensureDirectory ‹_›
          · exact .refl _ _
        · rename_i failed
          rw [failed] at first
          exact first
      · split
        · exact grows_ensureDirectory ‹_›
        · exact .refl _ _

end

end FlowCorpus.Storage.Tree
