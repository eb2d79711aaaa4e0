import FlowCorpus.Proofs.Storage.Placement

/-!
# Trees that agree on a region

What is done at a path looks at, and changes, only the locations that the path goes through. Trees
that agree there are treated alike and agree there afterwards, and nothing else is changed.
-/

set_option autoImplicit false

namespace FlowCorpus.Storage.Tree

structure Agree (within : Location → Prop) (tree other : Tree) : Prop where
  current : other.current = tree.current
  entries : ∀ location, within location → other.entry? location = tree.entry? location

/-- A later tree that is changed at some locations only. -/
def Changes (within : Location → Prop) (tree later : Tree) : Prop :=
  Agree (fun location => ¬ within location) tree later

def Alike (tree other : Tree) : Prop :=
  Agree (fun _ => True) tree other

def Covers (within : Location → Prop) (tree : Tree) (path : Path) : Prop :=
  ∀ before, before <+: path.names → within (descend (tree.startOf path) before)

variable {within : Location → Prop} {tree other middle later : Tree} {path : Path}

theorem Agree.refl (within : Location → Prop) (tree : Tree) : Agree within tree tree :=
  ⟨rfl, fun _ _ => rfl⟩

theorem Agree.trans (first : Agree within tree middle) (second : Agree within middle later) :
    Agree within tree later :=
  ⟨second.current.trans first.current, fun location inside =>
    (second.entries location inside).trans (first.entries location inside)⟩

theorem Agree.startOf (agree : Agree within tree other) (path : Path) :
    other.startOf path = tree.startOf path := by
  simp only [ Tree.startOf, agree.current]

theorem Covers.of_current (covers : Covers within tree path)
    (same : other.current = tree.current) : Covers within other path := by
  unfold Covers Tree.startOf
  rw [same]
  exact covers

theorem Covers.above {root : String} {names : List String} {name : String}
    (covers : Covers within tree ⟨root, names ++ [name]⟩) : Covers within tree ⟨root, names⟩ :=
  fun before inside => covers before (inside.trans (List.prefix_append names [name]))

theorem Covers.parent (covers : Covers within tree path) : Covers within tree path.parent :=
  fun before inside => covers before (inside.trans path.names.dropLast_prefix)

/-! ## Questions -/

theorem Agree.follow (agree : Agree within tree other) {start : Location} {names : List String}
    (covers : ∀ before, before <+: names → within (descend start before)) :
    other.follow start names = tree.follow start names := by
  induction names generalizing start with
  | nil => rfl
  | cons name rest ih =>
      have here := agree.entries start (covers [] List.nil_prefix)
      have further : other.follow (next start name) rest = tree.follow (next start name) rest :=
        ih fun before inside => covers (name :: before) (List.cons_prefix_cons.mpr ⟨rfl, inside⟩)
      unfold next at further
      unfold Tree.follow
      rw [here]
      cases tree.entry? start with
      | none => rfl
      | some entry =>
          cases entry with
          | file content => rfl
          | directory =>
              dsimp only
              by_cases up : name = ".."
              · rw [if_pos up] at further ⊢
                rw [if_pos up, further]
              · rw [if_neg up] at further ⊢
                rw [if_neg up, further]

theorem Agree.locate (agree : Agree within tree other) (covers : Covers within tree path) :
    other.locate path = tree.locate path := by
  unfold Tree.locate
  rw [agree.startOf, agree.follow covers]

theorem Covers.located {location : Location} (covers : Covers within tree path)
    (located : tree.locate path = .ok location) : within location := by
  rw [locate_ok located]
  exact covers path.names (List.prefix_refl _)

theorem Agree.test (agree : Agree within tree other) (covers : Covers within tree path)
    (kind : Entry → Bool) : other.test kind path = tree.test kind path := by
  unfold Tree.test
  rw [agree.locate covers]
  cases located : tree.locate path with
  | error fault =>
      cases fault with
      | store cause place => cases cause <;> rfl
      | _ => rfl
  | ok location => simp only [agree.entries location (covers.located located)]

/-! ## Entries that are set -/

theorem entry?_set (tree : Tree) (location : Location) (entry : Entry) (place : Location) :
    Tree.entry? (tree.set location entry) place =
      if place.isPrefixOf tree.current then some .directory
      else if place = location then some entry
      else tree.entries.lookup place := by
  unfold entry? set
  dsimp only
  by_cases same : place = location
  · subst same
    rw [if_pos rfl, lookup_setEntry_self]
  · rw [if_neg same, lookup_setEntry_of_ne same]

theorem Agree.set (agree : Agree within tree other) (location : Location) (entry : Entry) :
    Agree within (tree.set location entry) (other.set location entry) where
  current := agree.current
  entries place inside := by
    have there := agree.entries place inside
    unfold entry? at there
    rw [agree.current] at there
    rw [entry?_set, entry?_set, agree.current]
    by_cases above : place.isPrefixOf tree.current = true
    · rw [if_pos above, if_pos above]
    · rw [if_neg above, if_neg above] at there ⊢
      rw [there]

theorem changes_set {location : Location} (inside : within location) (tree : Tree)
    (entry : Entry) : Changes within tree (tree.set location entry) where
  current := rfl
  entries place outside := by
    refine entry?_set_of_ne ?_ entry
    rintro rfl
    exact outside inside

/-! ## Changes -/

/-- Two results are the same fault, or trees that agree. -/
inductive Results (within : Location → Prop) : Except Fault Tree → Except Fault Tree → Prop where
  | error (fault : Fault) : Results within (.error fault) (.error fault)
  | ok {tree other : Tree} (agree : Agree within tree other) :
      Results within (.ok tree) (.ok other)

theorem Agree.makeDirectory (agree : Agree within tree other) (covers : Covers within tree path) :
    Results within (tree.makeDirectory path) (other.makeDirectory path) := by
  unfold Tree.makeDirectory
  rw [agree.locate covers]
  cases located : tree.locate path with
  | error fault => exact .error fault
  | ok location =>
      simp only [bind, Except.bind, agree.entries location (covers.located located)]
      cases tree.entry? location with
      | some entry => exact .error _
      | none => exact .ok (agree.set location .directory)

theorem Agree.ensureDirectory (agree : Agree within tree other)
    (covers : Covers within tree path) :
    Results within (tree.ensureDirectory path) (other.ensureDirectory path) := by
  have made := agree.makeDirectory covers
  have there := agree.test covers Entry.isDirectory
  unfold Tree.ensureDirectory isDirectory
  rw [there]
  rcases first : tree.makeDirectory path with fault | tree <;>
    rcases second : other.makeDirectory path with fault | other <;>
    rw [first, second] at made <;> cases made
  · cases fault with
    | store cause place =>
        dsimp only
        split
        · exact .ok agree
        · exact .error _
    | _ => exact .error _
  · exact .ok ‹_›

theorem Agree.writeContent (agree : Agree within tree other) (covers : Covers within tree path)
    (content : Content) :
    Results within (tree.writeContent path content) (other.writeContent path content) := by
  unfold Tree.writeContent
  rw [agree.locate covers]
  cases located : tree.locate path with
  | error fault => exact .error fault
  | ok location =>
      simp only [bind, Except.bind, agree.entries location (covers.located located)]
      split
      · exact .error _
      · exact .ok (agree.set location (.file content))

theorem Agree.ensuredHere (agree : Agree within tree other) (covers : Covers within tree path) :
    (other.ensuredHere path).1 = (tree.ensuredHere path).1 ∧
      Agree within (tree.ensuredHere path).2 (other.ensuredHere path).2 := by
  have made := agree.ensureDirectory covers
  unfold Tree.ensuredHere
  rcases first : tree.ensureDirectory path with fault | tree <;>
    rcases second : other.ensureDirectory path with fault | other <;>
    rw [first, second] at made <;> cases made
  · exact ⟨rfl, agree⟩
  · exact ⟨rfl, ‹_›⟩

theorem ensured_concat (tree : Tree) (root : String) (names : List String) (name : String) :
    tree.ensured ⟨root, names ++ [name]⟩ =
      match tree.makeDirectory ⟨root, names ++ [name]⟩ with
      | .error (.store .missing _) =>
        match tree.ensured ⟨root, names⟩ with
        | (.ok (), later) => later.ensuredHere ⟨root, names ++ [name]⟩
        | (.error fault, later) => (.error fault, later)
      | _ => tree.ensuredHere ⟨root, names ++ [name]⟩ := by
  split
  · exact ensured_missing ‹_›
  · rename_i found
    refine ensured_here ?_
    rintro fault failed ⟨place, rfl⟩
    exact found place failed

theorem Agree.ensured (agree : Agree within tree other) (covers : Covers within tree path) :
    (other.ensured path).1 = (tree.ensured path).1 ∧
      Agree within (tree.ensured path).2 (other.ensured path).2 := by
  obtain ⟨root, names⟩ := path
  induction names using List.reverseRecOn with
  | nil =>
      rw [ensured_root, ensured_root]
      exact agree.ensuredHere covers
  | append_singleton names name ih =>
      have made := agree.makeDirectory covers
      have here := agree.ensuredHere covers
      obtain ⟨same, left⟩ := ih covers.above
      rw [ensured_concat, ensured_concat]
      rcases first : tree.makeDirectory ⟨root, names ++ [name]⟩ with fault | made' <;>
        rcases second : other.makeDirectory ⟨root, names ++ [name]⟩ with fault | made'' <;>
        rw [first, second] at made <;> cases made
      · by_cases missing : IsMissing fault
        · obtain ⟨place, rfl⟩ := missing
          dsimp only
          rcases above : tree.ensured ⟨root, names⟩ with ⟨outcome, later⟩
          rcases beside : other.ensured ⟨root, names⟩ with ⟨outcome', later'⟩
          rw [above, beside] at same left
          cases same
          cases outcome with
          | error fault => exact ⟨rfl, left⟩
          | ok =>
              have grows := grows_ensured (congrArg Prod.snd above)
              exact left.ensuredHere (covers.of_current grows.current)
        · split
          · rename_i place same
            cases same
            exact absurd ⟨place, rfl⟩ missing
          · exact here
      · exact here

theorem Agree.place (agree : Agree within tree other) (covers : Covers within tree path)
    (text : Except Fault String) :
    (other.place path text).1 = (tree.place path text).1 ∧
      Agree within (tree.place path text).2 (other.place path text).2 := by
  obtain ⟨same, left⟩ := agree.ensured covers.parent
  rcases made : tree.ensured path.parent with ⟨outcome, later⟩
  rcases made' : other.ensured path.parent with ⟨outcome', later'⟩
  rw [made, made'] at same left
  cases same
  cases outcome with
  | error fault =>
      rw [place_of_ensured_error made, place_of_ensured_error made']
      exact ⟨rfl, left⟩
  | ok =>
      cases text with
      | error fault =>
          rw [place_error_text made, place_error_text made']
          exact ⟨rfl, left⟩
      | ok s =>
          have grows := grows_ensured (congrArg Prod.snd made)
          have written := left.writeContent (covers.of_current grows.current) (.text s)
          rw [place_ok_text made, place_ok_text made']
          rcases first : later.writeContent path (.text s) with fault | last <;>
            rcases second : later'.writeContent path (.text s) with fault | last' <;>
            rw [first, second] at written <;> cases written
          · exact ⟨rfl, left⟩
          · exact ⟨rfl, ‹_›⟩

/-! ## What stays as it is -/

theorem changes_makeDirectory (covers : Covers within tree path)
    (made : tree.makeDirectory path = .ok later) : Changes within tree later := by
  obtain ⟨location, located, placed⟩ := Outcome.bind_ok made
  split at placed
  · cases placed
  · cases placed
    exact changes_set (covers.located located) tree .directory

theorem ensuredHere_keeps {holds : Tree → Prop}
    (made : ∀ later, tree.makeDirectory path = .ok later → holds later) (start : holds tree) :
    holds (tree.ensuredHere path).2 := by
  unfold Tree.ensuredHere
  cases ensured : tree.ensureDirectory path with
  | error fault => exact start
  | ok later =>
      unfold Tree.ensureDirectory at ensured
      split at ensured
      · cases ensured
        exact made _ ‹_›
      · split at ensured <;> cases ensured
        exact start
      · cases ensured

/-- What every new directory on the way keeps is kept by all of them. -/
theorem ensured_keeps {holds : Tree → Prop} {root : String} {names : List String}
    (each : ∀ before tree later, before <+: names →
      Tree.makeDirectory tree ⟨root, before⟩ = .ok later → holds tree → holds later)
    (start : holds tree) : holds (tree.ensured ⟨root, names⟩).2 := by
  induction names using List.reverseRecOn with
  | nil =>
      rw [ensured_root]
      exact ensuredHere_keeps (fun later made => each [] tree later (List.prefix_refl _) made start)
        start
  | append_singleton names name ih =>
      have here (tree : Tree) (start : holds tree) :
          holds (tree.ensuredHere ⟨root, names ++ [name]⟩).2 :=
        ensuredHere_keeps
          (fun later made => each _ tree later (List.prefix_refl _) made start) start
      have above := ih fun before tree later inside =>
        each before tree later (inside.trans (List.prefix_append names [name]))
      rw [ensured_concat]
      split
      · rcases made : tree.ensured ⟨root, names⟩ with ⟨outcome, later⟩
        rw [made] at above
        cases outcome with
        | error fault => exact above
        | ok => exact here later above
      · exact here tree start

/-- What every new directory on the way and the file keep is kept by a text that is put. -/
theorem place_keeps {holds : Tree → Prop} {text : Except Fault String}
    (directories : ∀ before tree later, before <+: path.names →
      Tree.makeDirectory tree ⟨path.root, before⟩ = .ok later → holds tree → holds later)
    (files : ∀ tree later content, Tree.writeContent tree path content = .ok later →
      holds tree → holds later)
    (start : holds tree) : holds (tree.place path text).2 := by
  have above : holds (tree.ensured path.parent).2 :=
    ensured_keeps (fun before tree later inside =>
      directories before tree later (inside.trans path.names.dropLast_prefix)) start
  rcases made : tree.ensured path.parent with ⟨outcome, middle⟩
  rw [made] at above
  cases outcome with
  | error fault => rwa [place_of_ensured_error made]
  | ok =>
      cases text with
      | error fault => rwa [place_error_text made]
      | ok s =>
          rw [place_ok_text made]
          cases written : middle.writeContent path (.text s) with
          | error fault => exact above
          | ok last => exact files middle last _ written above

theorem Changes.makeDirectory {start : Tree} {before : List String}
    (covers : Covers within start path) (inside : before <+: path.names)
    (made : Tree.makeDirectory tree ⟨path.root, before⟩ = .ok later)
    (changes : Changes within start tree) : Changes within start later := by
  have part : Covers within start ⟨path.root, before⟩ := fun front further =>
    covers front (further.trans inside)
  exact changes.trans (changes_makeDirectory (part.of_current changes.current) made)

theorem changes_place (covers : Covers within tree path) (text : Except Fault String) :
    Changes within tree (tree.place path text).2 := by
  refine place_keeps (fun _ _ _ inside made changes => changes.makeDirectory covers inside made)
    (fun middle later content written changes => ?_) (.refl _ tree)
  obtain ⟨location, located, -, rfl⟩ := writeContent_ok written
  have inside := (covers.of_current changes.current).located located
  exact changes.trans (changes_set inside middle _)

end FlowCorpus.Storage.Tree
