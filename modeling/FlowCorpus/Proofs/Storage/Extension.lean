import FlowCorpus.Proofs.Storage.Listing

/-!
# Trees that keep the kinds of their entries

Files that are written over and directories that are made leave every file a file and every
directory a directory. Where a path leads to, and what stands in its way, is then the same in every
later tree; only what was missing can be there. Directories that could not be made cannot be made
later, and directories that were made need not be made again.
-/

set_option autoImplicit false

namespace FlowCorpus.Storage.Tree

/-! ## Entries of their kinds -/

/-- A later tree in which every directory is one and every file is one, whatever it holds. -/
structure Extends (tree later : Tree) : Prop where
  current : later.current = tree.current
  directories : ∀ location, tree.entry? location = some .directory →
    later.entry? location = some .directory
  files : ∀ location content, tree.entry? location = some (.file content) →
    ∃ other, later.entry? location = some (.file other)

variable {tree middle later : Tree} {path : Path} {root name : String} {names : List String}

theorem Extends.refl (tree : Tree) : Extends tree tree :=
  ⟨rfl, fun _ there => there, fun _ content there => ⟨content, there⟩⟩

theorem Extends.trans (first : Extends tree middle) (second : Extends middle later) :
    Extends tree later where
  current := second.current.trans first.current
  directories location there := second.directories location (first.directories location there)
  files location content there := by
    obtain ⟨other, between⟩ := first.files location content there
    exact second.files location other between

theorem Grows.extends (grows : Grows (fun _ => False) tree later) : Extends tree later where
  current := grows.current
  directories := grows.directories
  files location content there := ⟨content, grows.others location _ there id⟩

theorem extends_set_file {location : Location} (free : tree.entry? location ≠ some .directory)
    (content : Content) : Extends tree (tree.set location (.file content)) where
  current := rfl
  directories := (grows_set free _).directories
  files other old there := by
    by_cases same : other = location
    · subst same
      exact ⟨content, entry?_set_self free _⟩
    · exact ⟨old, by rwa [entry?_set_of_ne same]⟩

/-! ## Where a path leads -/

theorem Extends.startOf (extended : Extends tree later) (path : Path) :
    later.startOf path = tree.startOf path := by
  simp only [ Tree.startOf, extended.current]

theorem Extends.destination (extended : Extends tree later) (path : Path) :
    later.destination path = tree.destination path := by
  simp only [ Tree.destination, extended.startOf]

/-- Names are followed alike later, unless something was missing. -/
theorem Extends.follow_eq (extended : Extends tree later) {start : Location}
    (found : tree.follow start names ≠ .error .missing) :
    later.follow start names = tree.follow start names := by
  induction names generalizing start with
  | nil => rfl
  | cons name rest ih =>
      unfold Tree.follow at found ⊢
      cases here : tree.entry? start with
      | none =>
          rw [here] at found
          exact absurd rfl found
      | some entry =>
          cases entry with
          | file content =>
              obtain ⟨other, there⟩ := extended.files start content here
              rw [there]
          | directory =>
              rw [here] at found
              rw [extended.directories start here]
              dsimp only at found ⊢
              by_cases up : name = ".."
              · rw [if_pos up] at found ⊢
                rw [if_pos up]
                exact ih found
              · rw [if_neg up] at found ⊢
                rw [if_neg up]
                by_cases long : nameLimit < name.utf8ByteSize
                · rw [if_pos long, if_pos long]
                · rw [if_neg long] at found ⊢
                  rw [if_neg long]
                  exact ih found

def IsMissing (fault : Fault) : Prop :=
  ∃ place, fault = .store .missing place

theorem Extends.locate_eq (extended : Extends tree later)
    (found : ∀ fault, tree.locate path = .error fault → ¬ IsMissing fault) :
    later.locate path = tree.locate path := by
  unfold locate at found ⊢
  by_cases null : path.hasNull = true
  · rw [if_pos null, if_pos null]
  · by_cases long : pathLimit < path.text.utf8ByteSize
    · rw [if_neg null, if_neg null, if_pos long, if_pos long]
    · rw [if_neg null, if_neg long] at found ⊢
      rw [if_neg null, if_neg long, extended.startOf, extended.follow_eq]
      intro missing
      rw [missing] at found
      exact found _ rfl ⟨_, rfl⟩

theorem Extends.locate (extended : Extends tree later) {location : Location}
    (located : tree.locate path = .ok location) : later.locate path = .ok location := by
  rw [extended.locate_eq, located]
  intro fault failed
  rw [located] at failed
  cases failed

/-! ## What stands at a path -/

def HasDirectory (tree : Tree) (path : Path) : Prop :=
  ∃ location, tree.locate path = .ok location ∧ tree.entry? location = some .directory

/-- No directory can be made at a path, now or later: there is a file, or a fault on the way that
nothing takes away. -/
def Obstructed (tree : Tree) (path : Path) : Prop :=
  (∃ fault, tree.locate path = .error fault ∧ ¬ IsMissing fault) ∨
    ∃ location content, tree.locate path = .ok location ∧
      tree.entry? location = some (.file content)

theorem Extends.hasDirectory (extended : Extends tree later) (there : tree.HasDirectory path) :
    later.HasDirectory path := by
  obtain ⟨location, located, directory⟩ := there
  exact ⟨location, extended.locate located, extended.directories location directory⟩

theorem Extends.obstructed (extended : Extends tree later) (barred : tree.Obstructed path) :
    later.Obstructed path := by
  rcases barred with ⟨fault, failed, lasting⟩ | ⟨location, content, located, file⟩
  · refine .inl ⟨fault, ?_, lasting⟩
    rw [extended.locate_eq, failed]
    intro other same
    rw [failed] at same
    cases same
    exact lasting
  · obtain ⟨other, there⟩ := extended.files location content file
    exact .inr ⟨location, other, extended.locate located, there⟩

/-- A path leads to a directory, is obstructed, is free, or misses something on the way. -/
theorem standing (tree : Tree) (path : Path) :
    tree.HasDirectory path ∨ tree.Obstructed path ∨
      (∃ location, tree.locate path = .ok location ∧ tree.entry? location = none) ∨
      ∃ place, tree.locate path = .error (.store .missing place) := by
  cases located : tree.locate path with
  | error fault =>
      by_cases missing : IsMissing fault
      · obtain ⟨place, rfl⟩ := missing
        exact .inr (.inr (.inr ⟨place, rfl⟩))
      · exact .inr (.inl (.inl ⟨fault, located, missing⟩))
  | ok location =>
      cases there : tree.entry? location with
      | none => exact .inr (.inr (.inl ⟨location, rfl, there⟩))
      | some entry =>
          cases entry with
          | directory => exact .inl ⟨location, located, there⟩
          | file content => exact .inr (.inl (.inr ⟨location, content, located, there⟩))

theorem isDirectory_of_hasDirectory (there : tree.HasDirectory path) :
    tree.isDirectory path = .ok true := by
  obtain ⟨location, located, directory⟩ := there
  unfold isDirectory test
  rw [located]
  simp only [directory]
  rfl

theorem makeDirectory_of_hasDirectory (there : tree.HasDirectory path) :
    tree.makeDirectory path = .error (.store .exists path.text) := by
  obtain ⟨location, located, directory⟩ := there
  unfold makeDirectory
  rw [located]
  simp only [bind, Except.bind, directory]
  rfl

theorem ensureDirectory_of_hasDirectory (there : tree.HasDirectory path) :
    tree.ensureDirectory path = .ok tree := by
  unfold ensureDirectory
  rw [makeDirectory_of_hasDirectory there, isDirectory_of_hasDirectory there]

theorem hasDirectory_of_isDirectory (found : tree.isDirectory path = .ok true) :
    tree.HasDirectory path := by
  unfold isDirectory test at found
  split at found
  · rename_i location located
    refine ⟨location, located, ?_⟩
    cases there : tree.entry? location with
    | none => simp [there] at found
    | some entry =>
        cases entry with
        | file content => simp [there, Entry.isDirectory] at found
        | directory => rfl
  · cases found
  · cases found

theorem hasDirectory_of_ensureDirectory (ensured : tree.ensureDirectory path = .ok later) :
    later.HasDirectory path := by
  unfold ensureDirectory at ensured
  split at ensured
  · rename_i next made
    cases ensured
    obtain ⟨location, located, placed⟩ := Outcome.bind_ok made
    have grows := grows_makeDirectory made
    split at placed
    · cases placed
    · rename_i absent
      cases placed
      exact ⟨location, grows.locate located, entry?_set_self (by rw [absent]; exact nofun) _⟩
  · split at ensured
    · rename_i found
      cases ensured
      exact hasDirectory_of_isDirectory found
    · cases ensured
  · cases ensured

/-- At a path that is obstructed no directory is made, and nothing is missing. -/
theorem makeDirectory_of_obstructed (barred : tree.Obstructed path) :
    ∃ fault, tree.makeDirectory path = .error fault ∧ ¬ IsMissing fault := by
  unfold makeDirectory
  rcases barred with ⟨fault, failed, lasting⟩ | ⟨location, content, located, file⟩
  · rw [failed]
    exact ⟨fault, rfl, lasting⟩
  · rw [located]
    simp only [bind, Except.bind, file]
    exact ⟨_, rfl, nofun⟩

theorem not_hasDirectory_of_obstructed (barred : tree.Obstructed path) :
    ¬ tree.HasDirectory path := by
  rintro ⟨location, located, directory⟩
  rcases barred with ⟨fault, failed, -⟩ | ⟨other, content, there, file⟩
  · rw [located] at failed
    cases failed
  · rw [located] at there
    cases there
    rw [directory] at file
    cases file

theorem ensureDirectory_of_obstructed (barred : tree.Obstructed path) :
    ∃ fault, tree.ensureDirectory path = .error fault := by
  cases ensured : tree.ensureDirectory path with
  | error fault => exact ⟨fault, rfl⟩
  | ok later =>
      -- A directory that is there after nothing was made was there before.
      refine absurd ?_ (not_hasDirectory_of_obstructed barred)
      obtain ⟨fault, failed, -⟩ := makeDirectory_of_obstructed barred
      unfold ensureDirectory at ensured
      rw [failed] at ensured
      split at ensured
      · contradiction
      · split at ensured
        · exact hasDirectory_of_isDirectory ‹_›
        · cases ensured
      · cases ensured

theorem makeDirectory_of_free {location : Location} (located : tree.locate path = .ok location)
    (free : tree.entry? location = none) :
    tree.makeDirectory path = .ok (tree.set location .directory) := by
  unfold makeDirectory
  rw [located]
  simp only [bind, Except.bind, free]
  rfl

theorem makeDirectory_of_missing {place : String}
    (missing : tree.locate path = .error (.store .missing place)) :
    tree.makeDirectory path = .error (.store .missing place) := by
  unfold makeDirectory
  rw [missing]
  rfl

/-! ## The path above -/

/-- The text of a path above another one is no longer, but for the dot of an empty path. -/
theorem text_above_le (root : String) (names : List String) (name : String) :
    (Path.text ⟨root, names⟩).utf8ByteSize ≤
      max 1 (Path.text ⟨root, names ++ [name]⟩).utf8ByteSize := by
  have whole : Path.text ⟨root, names ++ [name]⟩ = root ++ "/".intercalate (names ++ [name]) := by
    simp [ Path.text]
  cases names with
  | nil =>
      by_cases relative : root = ""
      · have dot : Path.text ⟨root, []⟩ = "." := by simp [ Path.text, relative]
        rw [dot]
        exact Nat.le_max_left _ _
      · have alone : Path.text ⟨root, []⟩ = root := by
          simp [ Path.text, relative]
        rw [whole, alone, String.utf8ByteSize_append]
        omega
  | cons first rest =>
      have part : Path.text ⟨root, first :: rest⟩ = root ++ "/".intercalate (first :: rest) := by
        simp [ Path.text]
      rw [whole, part, String.intercalate_append_of_ne_nil (List.cons_ne_nil _ _)
        (List.cons_ne_nil _ _)]
      simp only [String.utf8ByteSize_append]
      omega

theorem follow_concat_ok {start location : Location}
    (followed : tree.follow start (names ++ [name]) = .ok location) :
    ∃ above, tree.follow start names = .ok above ∧ tree.entry? above = some .directory ∧
      (name = ".." ∨ name.utf8ByteSize ≤ nameLimit) ∧ location = next above name := by
  induction names generalizing start with
  | nil =>
      obtain ⟨here, short, further⟩ := follow_cons_ok.mp followed
      cases further
      exact ⟨start, rfl, here, short, rfl⟩
  | cons first rest ih =>
      obtain ⟨here, short, further⟩ := follow_cons_ok.mp followed
      obtain ⟨above, reached, directory, fits, shape⟩ := ih further
      exact ⟨above, follow_cons_ok.mpr ⟨here, short, reached⟩, directory, fits, shape⟩

theorem hasNull_concat (root : String) (names : List String) (name : String) :
    Path.hasNull ⟨root, names ++ [name]⟩ =
      ( Path.hasNull ⟨root, names⟩ || name.toList.contains '\x00') := by
  simp [ Path.hasNull]

/-- What can be located stands in a directory. -/
theorem hasDirectory_above {location : Location}
    (located : tree.locate ⟨root, names ++ [name]⟩ = .ok location) :
    tree.HasDirectory ⟨root, names⟩ := by
  obtain ⟨clean, short, followed⟩ := locate_ok_iff.mp located
  obtain ⟨above, reached, directory, -, -⟩ := follow_concat_ok followed
  rw [hasNull_concat, Bool.or_eq_false_iff] at clean
  have fits := text_above_le root names name
  have limit : 1 ≤ pathLimit := by decide
  exact ⟨above, locate_ok_iff.mpr ⟨clean.1, by omega, reached⟩, directory⟩

/-- In a directory no single name is missing on the way. -/
theorem follow_single {location : Location} (here : tree.entry? location = some .directory)
    (name : String) : tree.follow location [name] ≠ .error .missing := by
  unfold Tree.follow
  rw [here]
  dsimp only
  split
  · simp [Tree.follow]
  · split <;> simp [Tree.follow]

/-- Below a directory nothing is missing. -/
theorem not_missing_below (there : tree.HasDirectory ⟨root, names⟩) (place : String) :
    tree.locate ⟨root, names ++ [name]⟩ ≠ .error (.store .missing place) := by
  obtain ⟨above, located, directory⟩ := there
  obtain ⟨-, -, reached⟩ := locate_ok_iff.mp located
  have single := follow_single directory name
  have followed : tree.follow (tree.startOf ⟨root, names ++ [name]⟩) (names ++ [name]) =
      tree.follow above [name] := follow_append reached
  intro missing
  unfold locate at missing
  split at missing
  · cases missing
  · split at missing
    · cases missing
    · dsimp only at missing
      rw [followed] at missing
      split at missing
      · cases missing
      · rename_i fault failed
        cases missing
        exact single failed

/-! ## Directories with all directories above them -/

def ensured (tree : Tree) (path : Path) : Except Fault Unit × Tree :=
  tree.ensureDirectories path.root path.names.reverse

/-- The tree with the directory at a path, where the directories above it are there. -/
def ensuredHere (tree : Tree) (path : Path) : Except Fault Unit × Tree :=
  match tree.ensureDirectory path with
  | .ok tree => (.ok (), tree)
  | .error fault => (.error fault, tree)

theorem ensured_root (tree : Tree) (root : String) :
    tree.ensured ⟨root, []⟩ = tree.ensuredHere ⟨root, []⟩ := by
  unfold ensured ensuredHere
  rfl

/-- Where something is missing, the directories above are made first. -/
theorem ensured_missing {place : String}
    (missing : tree.makeDirectory ⟨root, names ++ [name]⟩ = .error (.store .missing place)) :
    tree.ensured ⟨root, names ++ [name]⟩ =
      match tree.ensured ⟨root, names⟩ with
      | (.ok (), later) => later.ensuredHere ⟨root, names ++ [name]⟩
      | (.error fault, later) => (.error fault, later) := by
  unfold ensured
  dsimp only
  rw [List.reverse_append, List.reverse_singleton, List.singleton_append, ensureDirectories]
  simp only [List.reverse_cons, List.reverse_reverse]
  rw [missing]
  rfl

theorem ensured_here
    (found : ∀ fault, tree.makeDirectory ⟨root, names ++ [name]⟩ = .error fault →
      ¬ IsMissing fault) :
    tree.ensured ⟨root, names ++ [name]⟩ = tree.ensuredHere ⟨root, names ++ [name]⟩ := by
  unfold ensured
  dsimp only
  rw [List.reverse_append, List.reverse_singleton, List.singleton_append, ensureDirectories]
  simp only [List.reverse_cons, List.reverse_reverse]
  split
  · exact absurd ⟨_, rfl⟩ (found _ ‹_›)
  · rfl

theorem ensuredHere_of_hasDirectory (there : tree.HasDirectory path) :
    tree.ensuredHere path = (.ok (), tree) := by
  unfold ensuredHere
  rw [ensureDirectory_of_hasDirectory there]

theorem hasDirectory_of_ensuredHere (made : tree.ensuredHere path = (.ok (), later)) :
    later.HasDirectory path := by
  unfold ensuredHere at made
  split at made
  · cases made
    exact hasDirectory_of_ensureDirectory ‹_›
  · cases made

theorem ensuredHere_error {fault : Fault} (failed : tree.ensuredHere path = (.error fault, later)) :
    later = tree ∧ tree.ensureDirectory path = .error fault := by
  unfold ensuredHere at failed
  split at failed
  · cases failed
  · cases failed
    exact ⟨rfl, ‹_›⟩

theorem ensured_of_hasDirectory (there : tree.HasDirectory path) :
    tree.ensured path = (.ok (), tree) := by
  obtain ⟨root, names⟩ := path
  rcases names.eq_nil_or_concat' with rfl | ⟨above, name, rfl⟩
  · rw [ensured_root, ensuredHere_of_hasDirectory there]
  · rw [ensured_here, ensuredHere_of_hasDirectory there]
    intro fault failed
    rw [makeDirectory_of_hasDirectory there] at failed
    cases failed
    rintro ⟨place, same⟩
    cases same

theorem ensured_of_obstructed (barred : tree.Obstructed path) :
    ∃ fault, tree.ensured path = (.error fault, tree) := by
  obtain ⟨fault, failed⟩ := ensureDirectory_of_obstructed barred
  have here : tree.ensuredHere path = (.error fault, tree) := by
    unfold ensuredHere
    rw [failed]
  refine ⟨fault, ?_⟩
  obtain ⟨root, names⟩ := path
  rcases names.eq_nil_or_concat' with rfl | ⟨above, name, rfl⟩
  · rw [ensured_root, here]
  · rw [ensured_here, here]
    intro other same
    obtain ⟨first, stopped, lasting⟩ := makeDirectory_of_obstructed barred
    rw [stopped] at same
    cases same
    exact lasting

theorem hasDirectory_of_ensured (made : tree.ensured path = (.ok (), later)) :
    later.HasDirectory path := by
  obtain ⟨root, names⟩ := path
  rcases names.eq_nil_or_concat' with rfl | ⟨above, name, rfl⟩
  · rw [ensured_root] at made
    exact hasDirectory_of_ensuredHere made
  · by_cases missing : ∃ place, tree.makeDirectory ⟨root, above ++ [name]⟩ =
        .error (.store .missing place)
    · obtain ⟨place, missing⟩ := missing
      rw [ensured_missing missing] at made
      split at made
      · exact hasDirectory_of_ensuredHere made
      · cases made
    · rw [ensured_here] at made
      · exact hasDirectory_of_ensuredHere made
      · rintro fault failed ⟨place, rfl⟩
        exact missing ⟨place, failed⟩

/-- The directories of a path cannot be made, now or later, and nothing is made of them. -/
def Barred (tree : Tree) (path : Path) : Prop :=
  ∀ later, Extends tree later → ∃ fault, later.ensured path = (.error fault, later)

theorem Barred.extend (barred : tree.Barred path) (extended : Extends tree later) :
    later.Barred path :=
  fun last further => barred last (extended.trans further)

theorem barred_of_obstructed (obstructed : tree.Obstructed path) : tree.Barred path :=
  fun _ extended => ensured_of_obstructed (extended.obstructed obstructed)

theorem Barred.not_hasDirectory (barred : tree.Barred path) : ¬ tree.HasDirectory path := by
  intro there
  obtain ⟨fault, failed⟩ := barred tree (.refl tree)
  rw [ensured_of_hasDirectory there] at failed
  cases failed

/-- Below directories that cannot be made there are none. -/
theorem Barred.below (barred : tree.Barred ⟨root, names⟩) (name : String) :
    tree.Barred ⟨root, names ++ [name]⟩ := by
  intro later extended
  have above := (barred.extend extended).not_hasDirectory
  rcases standing later ⟨root, names ++ [name]⟩ with there | obstructed | free | missing
  · obtain ⟨location, located, -⟩ := there
    exact absurd (hasDirectory_above located) above
  · exact ensured_of_obstructed obstructed
  · obtain ⟨location, located, -⟩ := free
    exact absurd (hasDirectory_above located) above
  · obtain ⟨place, missing⟩ := missing
    obtain ⟨fault, failed⟩ := barred later extended
    rw [ensured_missing (makeDirectory_of_missing missing), failed]
    exact ⟨fault, rfl⟩

/-- Directories that could not be made with all above them cannot be made later. -/
theorem barred_of_ensured {fault : Fault} (failed : tree.ensured path = (.error fault, later)) :
    later.Barred path := by
  have here {tree later : Tree} {path : Path} {fault : Fault}
      (found : ∀ place, tree.locate path ≠ .error (.store .missing place))
      (failed : tree.ensuredHere path = (.error fault, later)) : later.Barred path := by
    obtain ⟨rfl, stopped⟩ := ensuredHere_error failed
    rcases standing later path with there | obstructed | ⟨location, located, free⟩ | missing
    · rw [ensureDirectory_of_hasDirectory there] at stopped
      cases stopped
    · exact barred_of_obstructed obstructed
    · unfold ensureDirectory at stopped
      rw [makeDirectory_of_free located free] at stopped
      cases stopped
    · obtain ⟨place, missing⟩ := missing
      exact absurd missing (found place)
  obtain ⟨root, names⟩ := path
  induction names using List.reverseRecOn generalizing later fault with
  | nil =>
      rw [ensured_root] at failed
      refine here ?_ failed
      intro place missing
      unfold locate at missing
      split at missing
      · cases missing
      · split at missing <;> cases missing
  | append_singleton above name ih =>
      by_cases missing : ∃ place, tree.locate ⟨root, above ++ [name]⟩ =
          .error (.store .missing place)
      · obtain ⟨place, missing⟩ := missing
        rw [ensured_missing (makeDirectory_of_missing missing)] at failed
        rcases made : tree.ensured ⟨root, above⟩ with ⟨outcome, middle⟩
        rw [made] at failed
        cases outcome with
        | ok =>
            exact here (not_missing_below (hasDirectory_of_ensured made)) failed
        | error first =>
            cases failed
            exact (ih made).below name
      · rw [ensured_here] at failed
        · exact here (fun place found => missing ⟨place, found⟩) failed
        · rintro first stopped ⟨place, rfl⟩
          -- A directory is missed by what makes it only when its path misses something.
          rcases standing tree ⟨root, above ++ [name]⟩ with there | obstructed | free | other
          · rw [makeDirectory_of_hasDirectory there] at stopped
            cases stopped
          · obtain ⟨second, same, lasting⟩ := makeDirectory_of_obstructed obstructed
            rw [stopped] at same
            cases same
            exact lasting ⟨place, rfl⟩
          · obtain ⟨location, located, free⟩ := free
            rw [makeDirectory_of_free located free] at stopped
            cases stopped
          · exact missing other

end FlowCorpus.Storage.Tree
