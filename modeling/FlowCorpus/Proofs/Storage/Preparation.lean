import FlowCorpus.Proofs.Storage.Region

/-!
# Directories that are shared

Texts that are put in different directories below a common one share the making of that one. Once
it was made, or could not be made, each looks at and changes a region of its own. Before that, the
first to be put makes the common directory, and it makes no difference which one that is.
-/

set_option autoImplicit false

namespace FlowCorpus.Storage.Tree

variable {tree later : Tree} {directory : Path} {name other last : String}

/-- A directory is there, or cannot be made, now or later. -/
def Prepared (tree : Tree) (directory : Path) : Prop :=
  tree.HasDirectory directory ∨ tree.Barred directory

theorem Prepared.extend (prepared : tree.Prepared directory) (extended : Extends tree later) :
    later.Prepared directory :=
  prepared.imp extended.hasDirectory fun barred => barred.extend extended

theorem Prepared.ensured (prepared : tree.Prepared directory) :
    (tree.ensured directory).2 = tree := by
  rcases prepared with there | barred
  · rw [ensured_of_hasDirectory there]
  · obtain ⟨fault, failed⟩ := barred tree (.refl tree)
    rw [failed]

theorem prepared_ensured (tree : Tree) (directory : Path) :
    Prepared (tree.ensured directory).2 directory := by
  rcases made : tree.ensured directory with ⟨_ | _, later⟩
  · exact .inr (barred_of_ensured made)
  · exact .inl (hasDirectory_of_ensured made)

def twoBelow (directory : Path) (name last : String) : Path :=
  ⟨directory.root, directory.names ++ [name] ++ [last]⟩

theorem parent_twoBelow (directory : Path) (name last : String) :
    Path.parent (twoBelow directory name last) = ⟨directory.root, directory.names ++ [name]⟩ := by
  simp [ Path.parent, twoBelow]

/-! ## Regions -/

/-- The locations on the way to a directory, and those at and below a name in it. -/
def Region (tree : Tree) (directory : Path) (name : String) (location : Location) : Prop :=
  (∃ before, before <+: directory.names ∧
      location = descend (tree.startOf directory) before) ∨
    ∃ rest, location = tree.destination directory ++ name :: rest

theorem region_of_current (same : later.current = tree.current) :
    Region later directory name = Region tree directory name := by
  funext location
  unfold Region destination Tree.startOf
  rw [same]

theorem covers_region (down : name ≠ "..") (further : last ≠ "..") :
    Covers (Region tree directory name) tree (twoBelow directory name last) := by
  intro before inside
  have start : tree.startOf (twoBelow directory name last) = tree.startOf directory := rfl
  rw [start]
  unfold twoBelow at inside
  rcases List.prefix_concat_iff.mp inside with rfl | inside
  · refine .inr ⟨[last], ?_⟩
    rw [descend_append, descend_append]
    change next (next _ name) last = _
    rw [next_of_ne down, next_of_ne further, List.append_assoc]
    rfl
  · rcases List.prefix_concat_iff.mp inside with rfl | inside
    · refine .inr ⟨[], ?_⟩
      rw [descend_append]
      exact next_of_ne down _
    · exact .inl ⟨before, inside, rfl⟩

theorem entry?_of_follow {start location : Location} {before rest : List String}
    (followed : tree.follow start (before ++ rest) = .ok location)
    (there : tree.entry? location = some .directory) :
    tree.entry? (descend start before) = some .directory := by
  induction before generalizing start with
  | nil =>
      cases rest with
      | nil =>
          cases followed
          exact there
      | cons name more => exact (follow_cons_ok.mp followed).1
  | cons name more ih => exact ih (follow_cons_ok.mp followed).2.2

/-- The way to a directory leads through directories. -/
theorem HasDirectory.entry? (there : tree.HasDirectory directory) {before : List String}
    (inside : before <+: directory.names) :
    tree.entry? (descend (tree.startOf directory) before) = some .directory := by
  obtain ⟨location, located, stands⟩ := there
  obtain ⟨-, -, followed⟩ := locate_ok_iff.mp located
  obtain ⟨rest, shape⟩ := inside
  rw [← shape] at followed
  exact entry?_of_follow followed stands

/-- What is done in one region is not seen in another one. -/
theorem HasDirectory.agree (there : tree.HasDirectory directory) (extended : Extends tree later)
    (changes : Changes (Region tree directory name) tree later) (apart : other ≠ name) :
    Agree (Region tree directory other) tree later where
  current := changes.current
  entries location inside := by
    rcases inside with ⟨before, inside, rfl⟩ | ⟨rest, rfl⟩
    · have stands := there.entry? inside
      rw [stands, extended.directories _ stands]
    · by_cases shared : Region tree directory name (tree.destination directory ++ other :: rest)
      · rcases shared with ⟨before, inside, same⟩ | ⟨more, same⟩
        · have stands := there.entry? inside
          rw [← same] at stands
          rw [stands, extended.directories _ stands]
        · exact absurd (List.cons.inj (List.append_cancel_left same)).1 apart
      · exact changes.entries _ shared

/-! ## The first to be put -/

theorem place_of_barred (barred : tree.Barred directory) (name last : String)
    (text : Except Fault String) :
    ∃ fault, tree.place (twoBelow directory name last) text = (.error fault, tree) := by
  obtain ⟨fault, failed⟩ := barred.below name tree (.refl tree)
  exact ⟨fault, place_of_ensured_error (by rw [parent_twoBelow]; exact failed)⟩

def Unusable (path : Path) : Prop :=
  path.hasNull = true ∨ pathLimit < path.text.utf8ByteSize

theorem locate_of_unusable {path : Path} (unusable : Unusable path) :
    ∃ fault, ¬ IsMissing fault ∧ ∀ tree : Tree, tree.locate path = .error fault := by
  unfold Tree.locate
  by_cases null : path.hasNull = true
  · exact ⟨.nullInPath, nofun, fun tree => if_pos null⟩
  · have long := unusable.resolve_left null
    exact ⟨.store .nameTooLong path.text, nofun, fun tree => (if_neg null).trans (if_pos long)⟩

theorem obstructed_of_unusable {path : Path} (unusable : Unusable path) (tree : Tree) :
    tree.Obstructed path := by
  obtain ⟨fault, lasting, located⟩ := locate_of_unusable unusable
  exact .inl ⟨fault, located tree, lasting⟩

theorem place_of_unusable (unusable : Unusable ⟨directory.root, directory.names ++ [name]⟩)
    (last : String) (tree : Tree) (text : Except Fault String) :
    ∃ fault, tree.place (twoBelow directory name last) text = (.error fault, tree) := by
  obtain ⟨fault, failed⟩ := ensured_of_obstructed (obstructed_of_unusable unusable tree)
  exact ⟨fault, place_of_ensured_error (by rw [parent_twoBelow]; exact failed)⟩

theorem follow_append_error {start : Location} {names rest : List String} {fault : StoreFault}
    (failed : tree.follow start names = .error fault) :
    tree.follow start (names ++ rest) = .error fault := by
  induction names generalizing start with
  | nil => cases failed
  | cons name more ih =>
      rw [List.cons_append]
      unfold Tree.follow at failed ⊢
      cases here : tree.entry? start with
      | none =>
          rw [here] at failed
          exact failed
      | some entry =>
          rw [here] at failed
          cases entry with
          | file content => exact failed
          | directory =>
              dsimp only at failed ⊢
              by_cases up : name = ".."
              · rw [if_pos up] at failed ⊢
                exact ih failed
              · rw [if_neg up] at failed ⊢
                by_cases long : nameLimit < name.utf8ByteSize
                · rw [if_pos long] at failed ⊢
                  exact failed
                · rw [if_neg long] at failed ⊢
                  exact ih failed

theorem usable_iff {path : Path} :
    ¬ Unusable path ↔ path.hasNull = false ∧ path.text.utf8ByteSize ≤ pathLimit := by
  unfold Unusable
  rw [not_or, Bool.not_eq_true, Nat.not_lt]

theorem locate_of_usable {path : Path} (usable : ¬ Unusable path) (tree : Tree) :
    tree.locate path =
      match tree.follow (tree.startOf path) path.names with
      | .ok location => .ok location
      | .error fault => .error (.store fault path.text) := by
  obtain ⟨clean, short⟩ := usable_iff.mp usable
  have noNull : ¬ path.hasNull = true := by
    rw [clean]
    exact nofun
  exact (if_neg noNull).trans (if_neg (Nat.not_lt.mpr short))

theorem missing_of_follow {path : Path} (usable : ¬ Unusable path)
    (missing : tree.follow (tree.startOf path) path.names = .error .missing) :
    tree.locate path = .error (.store .missing path.text) := by
  rw [locate_of_usable usable, missing]

theorem follow_of_missing {path : Path} {place : String}
    (missing : tree.locate path = .error (.store .missing place)) :
    tree.follow (tree.startOf path) path.names = .error .missing := by
  unfold Tree.locate at missing
  split at missing
  · cases missing
  · split at missing
    · cases missing
    · split at missing <;> cases missing
      assumption

/-- A directory that is neither there nor barred is missing from what is below it. -/
theorem missing_below (unprepared : ¬ tree.Prepared directory)
    (usable : ¬ Unusable ⟨directory.root, directory.names ++ [name]⟩) :
    ∃ place, tree.locate ⟨directory.root, directory.names ++ [name]⟩ =
      .error (.store .missing place) := by
  obtain ⟨absent, free⟩ := not_or.mp unprepared
  refine ⟨_, missing_of_follow usable ?_⟩
  change tree.follow (tree.startOf directory) (directory.names ++ [name]) = .error .missing
  rcases standing tree directory with there | obstructed | ⟨location, located, none⟩ | found
  · exact absurd there absent
  · exact absurd (barred_of_obstructed obstructed) free
  · -- The directory is all that is missing.
    obtain ⟨-, -, followed⟩ := locate_ok_iff.mp located
    rw [follow_append followed]
    unfold Tree.follow
    rw [none]
  · obtain ⟨place, missing⟩ := found
    exact follow_append_error (follow_of_missing missing)

/-- The directories of a path below a directory are made with it or after it. -/
theorem ensured_below (unprepared : ¬ tree.Prepared directory)
    (usable : ¬ Unusable ⟨directory.root, directory.names ++ [name]⟩) :
    Tree.ensured (tree.ensured directory).2 ⟨directory.root, directory.names ++ [name]⟩ =
        tree.ensured ⟨directory.root, directory.names ++ [name]⟩ ∨
      ∃ fault again,
        tree.ensured ⟨directory.root, directory.names ++ [name]⟩ =
          (.error fault, (tree.ensured directory).2) ∧
        Tree.ensured (tree.ensured directory).2 ⟨directory.root, directory.names ++ [name]⟩ =
          (.error again, (tree.ensured directory).2) := by
  obtain ⟨place, missing⟩ := missing_below unprepared usable
  rw [ensured_missing (makeDirectory_of_missing missing)]
  rcases made : tree.ensured ⟨directory.root, directory.names⟩ with ⟨fault | _, later⟩
  · obtain ⟨again, failed⟩ := (barred_of_ensured made).below name later (.refl later)
    exact .inr ⟨fault, again, rfl, failed⟩
  · left
    have there := hasDirectory_of_ensured made
    refine ensured_here ?_
    rintro fault failed ⟨place, rfl⟩
    rcases Outcome.bind_error failed with located | ⟨location, -, stands⟩
    · exact not_missing_below there place located
    · split at stands <;> cases stands

/-- A text is put alike whether or not the common directory was made before. -/
theorem place_prepared (unprepared : ¬ tree.Prepared directory)
    (usable : ¬ Unusable ⟨directory.root, directory.names ++ [name]⟩) (last : String)
    (text : Except Fault String) :
    Tree.place (tree.ensured directory).2 (twoBelow directory name last) text =
        tree.place (twoBelow directory name last) text ∨
      ∃ fault again,
        tree.place (twoBelow directory name last) text =
          (.error fault, (tree.ensured directory).2) ∧
        Tree.place (tree.ensured directory).2 (twoBelow directory name last) text =
          (.error again, (tree.ensured directory).2) := by
  rcases ensured_below unprepared usable with same | ⟨fault, again, failed, stopped⟩
  · left
    unfold place
    rw [parent_twoBelow, same]
  · refine .inr ⟨fault, again, ?_, ?_⟩
    · exact place_of_ensured_error (by rw [parent_twoBelow]; exact failed)
    · exact place_of_ensured_error (by rw [parent_twoBelow]; exact stopped)

/-! ## Tests before and after -/

/-- Only directories are new where directories are made. -/
theorem file_of_ensured {path : Path} {location : Location} {content : Content}
    (there : Tree.entry? (tree.ensured path).2 location = some (.file content)) :
    tree.entry? location = some (.file content) := by
  let holds (later : Tree) : Prop := ∀ content, later.entry? location = some (.file content) →
    tree.entry? location = some (.file content)
  have kept : holds (tree.ensured path).2 := by
    refine ensured_keeps (fun before middle later _ made earlier content there => ?_)
      fun content there => there
    obtain ⟨place, -, placed⟩ := Outcome.bind_ok made
    split at placed
    · cases placed
    · cases placed
      refine earlier content ?_
      rw [entry?_set] at there
      unfold entry?
      split at there
      · cases there
      · rename_i below
        rw [if_neg below]
        split at there
        · cases there
        · exact there
  exact kept content there

/-- Where there was no file, there is none after directories were made. -/
theorem not_file_of_ensured {path : Path} {location : Location}
    (none : ∀ content, tree.entry? location ≠ some (.file content)) :
    ( Tree.entry? (tree.ensured path).2 location).any Entry.isFile = false := by
  cases there : Tree.entry? (tree.ensured path).2 location with
  | none => rfl
  | some entry =>
      cases entry with
      | directory => rfl
      | file content => exact absurd (file_of_ensured there) (none content)

/-- An output is found, or not, whether or not the output directory was made: it is not hidden, and
the directory is there, or cannot be made, or no name is too long. -/
structure Ready (tree : Tree) (directory path : Path) : Prop where
  unhidden : ¬ tree.Hidden path
  fits : tree.Prepared directory ∨ ∀ name ∈ path.names, name.utf8ByteSize ≤ nameLimit

theorem follow_fits {start : Location} {names : List String}
    (fits : ∀ name ∈ names, name.utf8ByteSize ≤ nameLimit) :
    tree.follow start names ≠ .error .nameTooLong := by
  induction names generalizing start with
  | nil => simp [Tree.follow]
  | cons name rest ih =>
      rw [List.forall_mem_cons] at fits
      unfold Tree.follow
      cases tree.entry? start with
      | none => simp
      | some entry =>
          cases entry with
          | file content => simp
          | directory =>
              dsimp only
              split
              · exact ih fits.2
              · rw [if_neg (Nat.not_lt.mpr fits.1)]
                exact ih fits.2

theorem test_of_unusable {path : Path} (unusable : Unusable path) (kind : Entry → Bool)
    (tree other : Tree) : tree.test kind path = other.test kind path := by
  obtain ⟨fault, -, located⟩ := locate_of_unusable unusable
  unfold test
  rw [located tree, located other]
  cases fault with
  | store cause place => cases cause <;> rfl
  | _ => rfl

theorem Ready.isFile_ensured {path : Path} (ready : tree.Ready directory path) :
    Tree.isFile (tree.ensured directory).2 path = tree.isFile path := by
  rcases ready.fits with prepared | fits
  · rw [prepared.ensured]
  · have grows : Grows (fun _ => False) tree (tree.ensured directory).2 := grows_ensured rfl
    unfold isFile
    by_cases unusable : Unusable path
    · exact test_of_unusable unusable _ _ _
    · unfold test
      rw [locate_of_usable unusable, locate_of_usable unusable, grows.extends.startOf]
      by_cases missing : tree.follow (tree.startOf path) path.names = .error .missing
      · -- Nothing was found, and what is at the end of the way now is no file.
        rw [missing]
        dsimp only
        cases found : Tree.follow (tree.ensured directory).2 (tree.startOf path) path.names with
        | error fault =>
            cases fault with
            | nameTooLong => exact absurd found (follow_fits fits)
            | _ => rfl
        | ok location =>
            obtain rfl := follow_ok found
            exact congrArg Except.ok (not_file_of_ensured fun content there =>
              ready.unhidden ⟨missing, content, there⟩)
      · rw [grows.extends.follow_eq missing]
        cases tree.follow (tree.startOf path) path.names with
        | error fault => cases fault <;> rfl
        | ok location =>
            dsimp only
            cases stands : tree.entry? location with
            | some entry => rw [grows.others _ _ stands id]
            | none =>
                refine congrArg Except.ok (not_file_of_ensured fun content there => ?_)
                rw [stands] at there
                cases there

/-! ## Actions below a common directory -/

abbrev Keeps (tree later : Tree) : Prop :=
  Grows (fun _ => False) tree later

/-- A file that was there is read alike later. -/
theorem Keeps.readText {path : Path} (keeps : Keeps tree later)
    (there : tree.isFile path = .ok true) :
    later.readText path = tree.readText path := by
  unfold isFile test at there
  split at there
  · rename_i location located
    unfold Tree.readText
    rw [located, keeps.locate located]
    cases stands : tree.entry? location with
    | none =>
        rw [stands] at there
        cases there
    | some entry =>
        simp only [bind, Except.bind, stands, keeps.others location entry stands id]
  all_goals cases there

/-- An action that adds to trees below a name in a directory. It does alike in trees that agree
there, and, when the directory is neither there nor barred, it either has nothing to do before the
directory is made and after it, or makes the directory itself. -/
structure Local {α : Type} (base : Tree) (directory : Path) (name : String)
    (action : Tree → α × Tree) : Prop where
  keeps : ∀ tree, Keeps base tree → Keeps base (action tree).2
  extended : ∀ tree, Keeps base tree → Extends tree (action tree).2
  changes : ∀ tree, Keeps base tree → Changes (Region base directory name) tree (action tree).2
  barred : ∀ tree, Keeps base tree → tree.Barred directory → (action tree).2 = tree
  same : ∀ tree other, Keeps base tree → Keeps base other →
    Agree (Region base directory name) tree other →
      (action other).1 = (action tree).1 ∧
        Agree (Region base directory name) (action tree).2 (action other).2
  first : ¬ base.Prepared directory →
    (action base).2 = base ∧
        action (base.ensured directory).2 = ((action base).1, (base.ensured directory).2) ∨
      action (base.ensured directory).2 = action base

namespace Local

variable {α β : Type} {base : Tree} {action : Tree → α × Tree}

/-- An action without any effect, always with one result. -/
theorem still (result : α) (idle : ∀ tree, Keeps base tree → action tree = (result, tree)) :
    Local base directory name action where
  keeps tree kept := by
    rw [idle tree kept]
    exact kept
  extended tree kept := by
    rw [idle tree kept]
    exact .refl tree
  changes tree kept := by
    rw [idle tree kept]
    exact .refl _ tree
  barred tree kept _ := by rw [idle tree kept]
  same tree other kept beside agree := by
    rw [idle tree kept, idle other beside]
    exact ⟨rfl, agree⟩
  first _ := by
    rw [idle base (.refl _ base), idle _ (grows_ensured rfl)]
    exact .inl ⟨rfl, rfl⟩

theorem map (isLocal : Local base directory name action) (g : α → β) :
    Local base directory name fun tree => (g (action tree).1, (action tree).2) where
  keeps := isLocal.keeps
  extended := isLocal.extended
  changes := isLocal.changes
  barred := isLocal.barred
  same tree other kept beside agree :=
    (isLocal.same tree other kept beside agree).imp (congrArg g) id
  first unprepared := by
    rcases isLocal.first unprepared with ⟨idle, after⟩ | same
    · exact .inl ⟨idle, by rw [after]⟩
    · exact .inr (by rw [same])

/-- An action below another name of the directory is not touched by this one. -/
theorem apart (isLocal : Local base directory name action) (kept : Keeps base tree)
    (prepared : tree.Prepared directory) (distinct : other ≠ name) :
    Agree (Region base directory other) tree (action tree).2 := by
  rcases prepared with there | barred
  · have changes := isLocal.changes tree kept
    rw [← region_of_current kept.current] at changes ⊢
    exact there.agree (isLocal.extended tree kept) changes distinct
  · rw [isLocal.barred tree kept barred]
    exact .refl _ tree

end Local
end FlowCorpus.Storage.Tree
