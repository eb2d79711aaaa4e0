import FlowCorpus.Proofs.Storage.Extension
import FlowCorpus.Proofs.Storage.Written

/-!
# Texts that are put at paths

A text is put at a path after the directories above it are made. What fails fails later too and
makes nothing more. A file that was there is written over only if it was hidden: its path could not
be followed before the directories on the way were made, and led to it afterwards.
-/

set_option autoImplicit false

namespace FlowCorpus.Storage.Tree

variable {tree later last : Tree} {path : Path} {text : Except Fault String}

/-- The tree with a text at a path, with all directories above it. What is made before a fault
stays, also when there is no text after all. -/
def place (tree : Tree) (path : Path) (text : Except Fault String) : Except Fault Unit × Tree :=
  match tree.ensured path.parent with
  | (.error fault, later) => (.error fault, later)
  | (.ok (), later) =>
    match text with
    | .error fault => (.error fault, later)
    | .ok s =>
      match later.writeContent path (.text s) with
      | .ok written => (.ok (), written)
      | .error fault => (.error fault, later)

theorem place_of_ensured_error {fault : Fault}
    (failed : tree.ensured path.parent = (.error fault, later)) :
    tree.place path text = (.error fault, later) := by
  unfold place
  rw [failed]

theorem place_error_text (made : tree.ensured path.parent = (.ok (), later)) (fault : Fault) :
    tree.place path (.error fault) = (.error fault, later) := by
  unfold place
  rw [made]

theorem place_ok_text (made : tree.ensured path.parent = (.ok (), later)) (s : String) :
    tree.place path (.ok s) =
      match later.writeContent path (.text s) with
      | .ok written => (.ok (), written)
      | .error fault => (.error fault, later) := by
  unfold place
  rw [made]

/-! ## What changes -/

theorem grows_ensured (made : (tree.ensured path).2 = later) :
    Grows (fun _ => False) tree later :=
  made ▸ grows_ensureDirectories path.root tree path.names.reverse

/-- Only the file at the path can be written over. -/
theorem place_cases {outcome : Except Fault Unit}
    (placed : tree.place path text = (outcome, later)) :
    (Grows (fun _ => False) tree later ∧ ∃ fault, outcome = .error fault) ∨
      ∃ middle s, Grows (fun _ => False) tree middle ∧ text = .ok s ∧ outcome = .ok () ∧
        middle.writeContent path (.text s) = .ok later := by
  rcases made : tree.ensured path.parent with ⟨first, middle⟩
  have grows := grows_ensured (congrArg Prod.snd made)
  cases first with
  | error fault =>
      rw [place_of_ensured_error made] at placed
      cases placed
      exact .inl ⟨grows, fault, rfl⟩
  | ok =>
      cases text with
      | error fault =>
          rw [place_error_text made] at placed
          cases placed
          exact .inl ⟨grows, fault, rfl⟩
      | ok s =>
          rw [place_ok_text made] at placed
          split at placed
          · cases placed
            exact .inr ⟨middle, s, grows, rfl, rfl, ‹_›⟩
          · cases placed
            exact .inl ⟨grows, _, rfl⟩

theorem extends_writeContent {content : Content}
    (written : tree.writeContent path content = .ok later) : Extends tree later := by
  obtain ⟨location, -, free, rfl⟩ := writeContent_ok written
  exact extends_set_file free content

theorem extends_place (tree : Tree) (path : Path) (text : Except Fault String) :
    Extends tree (tree.place path text).2 := by
  rcases placed : tree.place path text with ⟨outcome, later⟩
  rcases place_cases placed with ⟨grows, -⟩ | ⟨middle, s, grows, -, -, written⟩
  · exact grows.extends
  · exact grows.extends.trans (extends_writeContent written)

/-! ## Tests -/

theorem test_of_located {kind : Entry → Bool} {location : Location}
    (located : tree.locate path = .ok location) :
    tree.test kind path = .ok ((tree.entry? location).any kind) := by
  unfold test
  rw [located]

/-- A file that was put at a path is found there. -/
theorem test_of_place {kind : Entry → Bool} (files : ∀ content, kind (.file content) = true)
    (placed : tree.place path text = (.ok (), later)) : later.test kind path = .ok true := by
  rcases place_cases placed with ⟨-, fault, impossible⟩ | ⟨middle, s, -, -, -, written⟩
  · cases impossible
  · obtain ⟨holds, -⟩ := holds_of_writeContent written
    rw [test_of_located holds.located, holds.stands]
    simp [files]

/-- What was found is found later. -/
theorem Extends.test_true {kind : Entry → Bool} (files : ∀ content, kind (.file content) = true)
    (extended : Extends tree later) (found : tree.test kind path = .ok true) :
    later.test kind path = .ok true := by
  unfold test at found
  split at found
  · rename_i location located
    rw [test_of_located (extended.locate located)]
    cases there : tree.entry? location with
    | none => simp [there] at found
    | some entry =>
        cases entry with
        | file content =>
            obtain ⟨other, stands⟩ := extended.files location content there
            simp [stands, files]
        | directory =>
            rw [extended.directories location there]
            rwa [there] at found
  · cases found
  · cases found

theorem test_error {kind : Entry → Bool} {fault : Fault}
    (failed : tree.test kind path = .error fault) :
    tree.locate path = .error fault ∧ ∃ p, fault = .store .nameTooLong p := by
  unfold test at failed
  split at failed
  · cases failed
  · rename_i p located
    cases failed
    exact ⟨located, p, rfl⟩
  · cases failed

/-- A fault of a test is one later. -/
theorem Extends.test_error {kind : Entry → Bool} {fault : Fault} (extended : Extends tree later)
    (failed : tree.test kind path = .error fault) : later.test kind path = .error fault := by
  obtain ⟨located, p, rfl⟩ := Tree.test_error failed
  have same : later.locate path = tree.locate path := by
    refine extended.locate_eq ?_
    rintro other found ⟨place, rfl⟩
    rw [located] at found
    cases found
  unfold test
  rw [same, located]

/-! ## What fails fails later -/

/-- In a directory nothing is missing. -/
theorem not_missing_of_parent (there : tree.HasDirectory path.parent) (place : String) :
    tree.locate path ≠ .error (.store .missing place) := by
  obtain ⟨root, names⟩ := path
  rcases names.eq_nil_or_concat' with rfl | ⟨above, name, rfl⟩
  · intro missing
    unfold locate at missing
    split at missing
    · cases missing
    · split at missing <;> cases missing
  · have parent : Path.parent ⟨root, above ++ [name]⟩ = ⟨root, above⟩ := by simp [ Path.parent]
    rw [parent] at there
    exact not_missing_below there place

theorem writeContent_of_locate_error {content : Content} {fault : Fault}
    (failed : tree.locate path = .error fault) : tree.writeContent path content = .error fault := by
  unfold writeContent
  rw [failed]
  rfl

theorem writeContent_of_directory {content : Content} (there : tree.HasDirectory path) :
    tree.writeContent path content = .error (.store .isADirectory path.text) := by
  obtain ⟨location, located, directory⟩ := there
  unfold writeContent
  rw [located]
  simp only [bind, Except.bind, directory]
  rfl

theorem writeContent_of_free {content : Content} {location : Location}
    (located : tree.locate path = .ok location) (free : tree.entry? location ≠ some .directory) :
    tree.writeContent path content = .ok (tree.set location (.file content)) := by
  unfold writeContent
  rw [located]
  cases there : tree.entry? location with
  | none =>
      simp only [bind, Except.bind, there]
      rfl
  | some entry =>
      cases entry with
      | directory => exact absurd there free
      | file old =>
          simp only [bind, Except.bind, there]
          rfl

/-- A file that could not be written in a directory cannot be written later. -/
theorem writeContent_again {content : Content} {fault : Fault}
    (there : tree.HasDirectory path.parent)
    (failed : tree.writeContent path content = .error fault) (extended : Extends tree later) :
    ∃ fault, later.writeContent path content = .error fault := by
  rcases standing tree path with directory | obstructed | free | missing
  · exact ⟨_, writeContent_of_directory (extended.hasDirectory directory)⟩
  · rcases obstructed with ⟨first, stopped, lasting⟩ | ⟨location, old, located, file⟩
    · refine ⟨first, writeContent_of_locate_error ?_⟩
      rw [extended.locate_eq, stopped]
      intro other same
      rw [stopped] at same
      cases same
      exact lasting
    · rw [writeContent_of_free located (by rw [file]; exact nofun)] at failed
      cases failed
  · obtain ⟨location, located, free⟩ := free
    rw [writeContent_of_free located (by rw [free]; exact nofun)] at failed
    cases failed
  · obtain ⟨place, missing⟩ := missing
    exact absurd missing (not_missing_of_parent there place)

/-- What could not be put at a path cannot be put there later, and nothing more is made. -/
theorem place_again {fault : Fault} (failed : tree.place path text = (.error fault, later))
    (extended : Extends later last) : ∃ fault, last.place path text = (.error fault, last) := by
  rcases made : tree.ensured path.parent with ⟨outcome, middle⟩
  cases outcome with
  | error first =>
      rw [place_of_ensured_error made] at failed
      cases failed
      obtain ⟨second, again⟩ := barred_of_ensured made last extended
      exact ⟨second, place_of_ensured_error again⟩
  | ok =>
      have there := hasDirectory_of_ensured made
      cases text with
      | error second =>
          rw [place_error_text made] at failed
          cases failed
          exact ⟨_, place_error_text (ensured_of_hasDirectory (extended.hasDirectory there)) _⟩
      | ok s =>
          rw [place_ok_text made] at failed
          split at failed
          · cases failed
          · rename_i first stopped
            cases failed
            obtain ⟨second, again⟩ := writeContent_again there stopped extended
            rw [place_ok_text (ensured_of_hasDirectory (extended.hasDirectory there)), again]
            exact ⟨second, rfl⟩

/-- Every path starts in a directory. -/
theorem entry?_startOf (tree : Tree) (path : Path) :
    tree.entry? (tree.startOf path) = some .directory := by
  have above : (tree.startOf path).isPrefixOf tree.current = true := by
    unfold startOf
    split
    · simp
    · rfl
  unfold entry?
  rw [if_pos above]

/-- A text can be put where there is a file. -/
theorem place_of_isFile (found : tree.isFile path = .ok true) (s : String) :
    ∃ later, tree.place path (.ok s) = (.ok (), later) := by
  unfold isFile test at found
  split at found
  · rename_i location located
    have file : ∃ content, tree.entry? location = some (.file content) := by
      cases there : tree.entry? location with
      | none => simp [there] at found
      | some entry =>
          cases entry with
          | file content => exact ⟨content, rfl⟩
          | directory => simp [there, Entry.isFile] at found
    obtain ⟨content, there⟩ := file
    have parent : tree.HasDirectory path.parent := by
      obtain ⟨root, names⟩ := path
      rcases names.eq_nil_or_concat' with rfl | ⟨above, name, rfl⟩
      · -- The empty path leads to a directory.
        obtain rfl := locate_ok located
        have start := entry?_startOf tree ⟨root, []⟩
        cases there.symm.trans start
      · have parent : Path.parent ⟨root, above ++ [name]⟩ = ⟨root, above⟩ := by
          simp [ Path.parent]
        rw [parent]
        exact hasDirectory_above located
    rw [place_ok_text (ensured_of_hasDirectory parent),
      writeContent_of_free located (by rw [there]; exact nofun)]
    exact ⟨_, rfl⟩
  · cases found
  · cases found

/-! ## Files that were there -/

/-- A file at which a path does not arrive yet: something is missing on the way, and from there the
path leads back up. -/
def Hidden (tree : Tree) (path : Path) : Prop :=
  tree.follow (tree.startOf path) path.names = .error .missing ∧
    ∃ content, tree.entry? (tree.destination path) = some (.file content)

theorem follow_missing {start : Location} {names : List String}
    (down : ∀ name ∈ names, name ≠ "..") (missing : tree.follow start names = .error .missing) :
    ∃ before rest, names = before ++ rest ∧ rest ≠ [] ∧ tree.entry? (start ++ before) = none := by
  induction names generalizing start with
  | nil => cases missing
  | cons name rest ih =>
      rw [List.forall_mem_cons] at down
      unfold Tree.follow at missing
      cases here : tree.entry? start with
      | none => exact ⟨[], name :: rest, rfl, List.cons_ne_nil _ _, by rwa [List.append_nil]⟩
      | some entry =>
          rw [here] at missing
          cases entry with
          | file content => cases missing
          | directory =>
              dsimp only at missing
              rw [if_neg down.1] at missing
              split at missing
              · cases missing
              · obtain ⟨before, after, rfl, nonempty, absent⟩ := ih down.2 missing
                refine ⟨name :: before, after, rfl, nonempty, ?_⟩
                rwa [List.append_assoc, List.singleton_append] at absent

/-- Where every entry stands in a directory, a file is hidden only from a path that leads up
somewhere. -/
theorem Paved.not_hidden (paved : tree.Paved) (down : ∀ name ∈ path.names, name ≠ "..") :
    ¬ tree.Hidden path := by
  rintro ⟨missing, content, file⟩
  obtain ⟨before, rest, shape, nonempty, absent⟩ := follow_missing down missing
  have place : tree.destination path = tree.startOf path ++ before ++ rest := by
    rw [List.append_assoc, ← shape]
    exact descend_of_forall_ne down _
  rw [place] at file
  have above := paved.above_all (by rw [file]; rfl) nonempty
  rw [absent] at above
  cases above

theorem IsProper.not_hidden (proper : tree.IsProper) (down : ∀ name ∈ path.names, name ≠ "..") :
    ¬ tree.Hidden path :=
  proper.paved.not_hidden down

/-- A text that is put where no file was found writes over no file of an earlier tree, unless the
file was hidden then. -/
theorem place_spares {base : Tree} {changed : Location → Prop} {kind : Entry → Bool}
    {outcome : Except Fault Unit} (files : ∀ content, kind (.file content) = true)
    (grows : Grows changed base tree) (extended : Extends base tree)
    (absent : tree.test kind path = .ok false)
    (hidden : base.Hidden path → changed (base.destination path))
    (placed : tree.place path text = (outcome, later)) : Grows changed base later := by
  rcases place_cases placed with ⟨made, -⟩ | ⟨middle, s, made, -, -, written⟩
  · exact grows.trans (made.mono fun _ nothing => nothing.elim)
  · have before : Grows changed base middle :=
      grows.trans (made.mono fun _ nothing => nothing.elim)
    have reached := extended.trans made.extends
    obtain ⟨location, located, free, rfl⟩ := writeContent_ok written
    have after := grows_set free (.file (.text s))
    refine ⟨after.current.trans before.current, fun other there =>
      after.directories other (before.directories other there), ?_⟩
    intro other entry there kept
    by_cases elsewhere : other = location
    · subst elsewhere
      have place : other = base.destination path :=
        (locate_ok located).trans (reached.destination path)
      obtain ⟨clean, short, -⟩ := locate_ok_iff.mp located
      cases entry with
      | directory => exact absurd (before.directories other there) free
      | file content =>
          exfalso
          by_cases missing : base.follow (base.startOf path) path.names = .error .missing
          · exact kept (place ▸ hidden ⟨missing, content, place ▸ there⟩)
          · -- The file was found, since its path was followed then as it is now.
            have same := reached.follow_eq missing
            have again := extended.follow_eq missing
            have found : tree.locate path = .ok other := by
              refine locate_ok_iff.mpr ⟨clean, short, ?_⟩
              rw [extended.startOf, again, ← same, ← reached.startOf]
              exact (locate_ok_iff.mp located).2.2
            obtain ⟨now, stands⟩ := extended.files other content there
            rw [test_of_located found, stands] at absent
            simp [files] at absent
    · exact after.others other entry (before.others other entry there kept) elsewhere

/-- A text that was read is read later, unless its file was replaced. -/
theorem Grows.readText {changed : Location → Prop} {s : String} (grows : Grows changed tree later)
    (kept : ¬ changed (tree.destination path)) (read : tree.readText path = .ok s) :
    later.readText path = .ok s := by
  obtain ⟨location, located, found⟩ := Outcome.bind_ok read
  obtain rfl := locate_ok located
  unfold Tree.readText
  rw [grows.locate located]
  cases there : tree.entry? (tree.destination path) with
  | none =>
      rw [there] at found
      cases found
  | some entry =>
      rw [there] at found
      simp only [bind, Except.bind, grows.others _ _ there kept]
      exact found

/-! ## Faults of the tree -/

/-- A fault of the file store, or of a name that no file can have. -/
def IsStoreFault (fault : Fault) : Prop :=
  fault = .nullInPath ∨ ∃ cause place, fault = .store cause place

theorem IsStoreFault.isFunctionFailure {fault : Fault} (store : IsStoreFault fault) :
    fault.isFunctionFailure = true := by
  rcases store with rfl | ⟨cause, place, rfl⟩ <;> rfl

theorem locate_error {fault : Fault} (failed : tree.locate path = .error fault) :
    IsStoreFault fault := by
  unfold locate at failed
  split at failed
  · cases failed
    exact .inl rfl
  · split at failed
    · cases failed
      exact .inr ⟨_, _, rfl⟩
    · split at failed
      · cases failed
      · cases failed
        exact .inr ⟨_, _, rfl⟩

theorem makeDirectory_error {fault : Fault} (failed : tree.makeDirectory path = .error fault) :
    IsStoreFault fault := by
  rcases Outcome.bind_error failed with located | ⟨location, -, there⟩
  · exact locate_error located
  · split at there
    · cases there
      exact .inr ⟨_, _, rfl⟩
    · cases there

theorem ensureDirectory_error {fault : Fault} (failed : tree.ensureDirectory path = .error fault) :
    IsStoreFault fault := by
  unfold ensureDirectory at failed
  split at failed
  · cases failed
  · split at failed
    · cases failed
    · cases failed
      exact .inr ⟨_, _, rfl⟩
  · cases failed
    exact makeDirectory_error ‹_›

theorem ensuredHere_isStoreFault {fault : Fault}
    (failed : tree.ensuredHere path = (.error fault, later)) : IsStoreFault fault :=
  ensureDirectory_error (ensuredHere_error failed).2

theorem ensured_error {fault : Fault} (failed : tree.ensured path = (.error fault, later)) :
    IsStoreFault fault := by
  obtain ⟨root, names⟩ := path
  induction names using List.reverseRecOn generalizing later fault with
  | nil =>
      rw [ensured_root] at failed
      exact ensuredHere_isStoreFault failed
  | append_singleton above name ih =>
      by_cases missing : ∃ place, tree.makeDirectory ⟨root, above ++ [name]⟩ =
          .error (.store .missing place)
      · obtain ⟨place, missing⟩ := missing
        rw [ensured_missing missing] at failed
        split at failed
        · exact ensuredHere_isStoreFault failed
        · cases failed
          exact ih ‹_›
      · rw [ensured_here] at failed
        · exact ensuredHere_isStoreFault failed
        · rintro first stopped ⟨place, rfl⟩
          exact missing ⟨place, stopped⟩

theorem writeContent_error {content : Content} {fault : Fault}
    (failed : tree.writeContent path content = .error fault) : IsStoreFault fault := by
  rcases Outcome.bind_error failed with located | ⟨location, -, there⟩
  · exact locate_error located
  · split at there
    · cases there
      exact .inr ⟨_, _, rfl⟩
    · cases there

/-- A text is refused only by the tree. -/
theorem place_error {s : String} {fault : Fault}
    (failed : tree.place path (.ok s) = (.error fault, later)) : IsStoreFault fault := by
  rcases made : tree.ensured path.parent with ⟨outcome, middle⟩
  cases outcome with
  | error first =>
      rw [place_of_ensured_error made] at failed
      cases failed
      exact ensured_error made
  | ok =>
      rw [place_ok_text made] at failed
      split at failed
      · cases failed
      · cases failed
        exact writeContent_error ‹_›

end FlowCorpus.Storage.Tree
