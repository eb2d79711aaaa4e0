import FlowCorpus.Proofs.Storage.Turns

/-!
# Fresh directories

A fresh directory can be made, or is there, and has nothing in it. Texts can be put below two names
in it, one after the other, as long as their paths are not too long, and they are then just the
files that are listed below the directory.
-/

set_option autoImplicit false

namespace FlowCorpus.Storage.Tree

variable {tree middle later : Tree} {directory path : Path} {location : Location}
  {name last : String}

/-! ## Entries that are listed once -/

def Once (within : Location → Prop) (tree : Tree) : Prop :=
  tree.entries.Pairwise fun a b => within a.1 → a.1 ≠ b.1

variable {within : Location → Prop}

theorem isSome_lookup_of_mem {entry : Location × Entry} {entries : List (Location × Entry)}
    (member : entry ∈ entries) : (entries.lookup entry.1).isSome := by
  cases found : entries.lookup entry.1 with
  | some other => rfl
  | none =>
      have other := List.lookup_eq_none_iff.mp found entry member
      rw [bne_self_eq_false] at other
      cases other

theorem once_of_absent (absent : ∀ location, within location → tree.entry? location = none) :
    Once within tree := by
  refine List.Pairwise.imp_of_mem (fun first _ _ inside => ?_) (List.pairwise_of_forall fun _ _ =>
    trivial)
  have none := absent _ inside
  have some := isSome_lookup_of_mem first
  unfold entry? at none
  split at none
  · cases none
  · rw [none] at some
    cases some

theorem mem_keys_setEntry {entry : Entry} {entries : List (Location × Entry)}
    {other : Location × Entry} (member : other ∈ setEntry location entry entries) :
    other.1 = location ∨ ∃ old ∈ entries, old.1 = other.1 := by
  induction entries with
  | nil =>
      rw [setEntry, List.mem_singleton] at member
      exact .inl (congrArg Prod.fst member)
  | cons first rest ih =>
      obtain ⟨place, old⟩ := first
      rw [setEntry] at member
      split at member
      · rcases List.mem_cons.mp member with rfl | behind
        · exact .inl rfl
        · exact .inr ⟨other, List.mem_cons_of_mem _ behind, rfl⟩
      · rcases List.mem_cons.mp member with rfl | behind
        · exact .inr ⟨_, List.mem_cons_self, rfl⟩
        · rcases ih behind with same | ⟨earlier, there, same⟩
          · exact .inl same
          · exact .inr ⟨earlier, List.mem_cons_of_mem _ there, same⟩

theorem Once.set (once : Once within tree) (location : Location) (entry : Entry) :
    Once within (tree.set location entry) := by
  unfold Once Tree.set at *
  generalize tree.entries = entries at once ⊢
  induction entries with
  | nil => exact List.pairwise_singleton _ _
  | cons first rest ih =>
      obtain ⟨place, old⟩ := first
      obtain ⟨apart, others⟩ := List.pairwise_cons.mp once
      unfold setEntry
      split
      · rename_i same
        subst same
        exact List.pairwise_cons.mpr ⟨apart, others⟩
      · rename_i different
        refine List.pairwise_cons.mpr ⟨fun other member inside => ?_, ih others⟩
        rcases mem_keys_setEntry member with same | ⟨earlier, there, same⟩
        · rwa [same]
        · rw [← same]
          exact apart earlier there inside

theorem Once.place (once : Once within tree) (path : Path) (text : Except Fault String) :
    Once within (tree.place path text).2 := by
  refine place_keeps (fun before tree later _ made once => ?_)
    (fun tree later content written once => ?_) once
  · obtain ⟨location, located, placed⟩ := Outcome.bind_ok made
    split at placed <;> cases placed
    exact once.set _ _
  · obtain ⟨location, -, -, rfl⟩ := writeContent_ok written
    exact once.set _ _

/-- What is listed once stands there. -/
theorem Once.lookup {entry : Entry} (once : Once within tree) (inside : within location)
    (member : (location, entry) ∈ tree.entries) : tree.entries.lookup location = some entry := by
  unfold Once at once
  generalize tree.entries = entries at once member ⊢
  induction entries with
  | nil => cases member
  | cons first rest ih =>
      obtain ⟨apart, others⟩ := List.pairwise_cons.mp once
      rcases List.mem_cons.mp member with rfl | behind
      · simp
      · have different : (location == first.1) = false := by
          refine beq_eq_false_iff_ne.mpr fun same => ?_
          exact apart _ behind (same ▸ inside) same.symm
        rw [List.lookup_cons, different]
        exact ih others behind

/-! ## Files that are listed -/

theorem namesBelow?_append {names : List String} (nonempty : names ≠ []) :
    namesBelow? location (location ++ names) = some names := by
  induction location with
  | nil =>
      cases names with
      | nil => exact absurd rfl nonempty
      | cons first rest => rfl
  | cons first rest ih => rw [List.cons_append, namesBelow?, if_pos rfl, ih]

def Below (tree : Tree) (directory : Path) (location : Location) : Prop :=
  ∃ names, names ≠ [] ∧ location = tree.destination directory ++ names

def beneath (directory : Path) (names : List String) : Path :=
  { directory with names := directory.names ++ names }

theorem beneath_injective (directory : Path) : Function.Injective (beneath directory) := by
  intro names others same
  exact List.append_cancel_left (congrArg Path.names same)

/-- The path that an entry is listed with below a directory: that of a file in it. -/
def listedPath? (tree : Tree) (directory : Path) (entry : Location × Entry) : Option Path :=
  match namesBelow? (tree.destination directory) entry.1, entry.2 with
  | some names, .file _ => some (beneath directory names)
  | _, _ => none

theorem listedPath?_eq_some {entry : Location × Entry}
    (listed : tree.listedPath? directory entry = some path) :
    ∃ names content, names ≠ [] ∧ path = beneath directory names ∧
      entry = (tree.destination directory ++ names, .file content) := by
  obtain ⟨place, kind⟩ := entry
  unfold listedPath? at listed
  cases below : namesBelow? (tree.destination directory) place with
  | none => simp [below] at listed
  | some names =>
      cases kind with
      | directory => simp [below] at listed
      | file content =>
          simp only [below, Option.some.injEq] at listed
          obtain ⟨rfl, nonempty⟩ := namesBelow?_eq below
          exact ⟨names, content, nonempty, listed.symm, rfl⟩

theorem listedPath?_file {names : List String} (nonempty : names ≠ []) (content : Content) :
    tree.listedPath? directory (tree.destination directory ++ names, .file content) =
      some (beneath directory names) := by
  unfold listedPath?
  rw [namesBelow?_append nonempty]

theorem filesBelow_eq (there : tree.isDirectory directory = .ok true) :
    tree.filesBelow directory true =
      .ok (Path.sorted (tree.entries.filterMap (tree.listedPath? directory))) := by
  obtain ⟨location, located, -⟩ := hasDirectory_of_isDirectory there
  obtain rfl := locate_ok located
  unfold filesBelow
  rw [there]
  simp only [bind, Except.bind, ↓reduceIte, located]
  rfl

/-- Below a directory are listed just the files that stand there. -/
theorem filesBelow_perm {known : List (List String)} (there : tree.isDirectory directory = .ok true)
    (once : Once (tree.Below directory) tree)
    (clear : ∀ location, tree.Below directory location → location.isPrefixOf tree.current = false)
    (found : ∀ names, names ≠ [] → ((∃ content, tree.entry? (tree.destination directory ++ names) =
      some (.file content)) ↔ names ∈ known))
    (nonempty : [] ∉ known) (distinct : known.Nodup) :
    ∃ files, tree.filesBelow directory true = .ok files ∧
      files.Perm (known.map (beneath directory)) := by
  refine ⟨_, filesBelow_eq there, (List.mergeSort_perm _ _).trans ?_⟩
  have stands {names : List String} {content : Content} (more : names ≠ [])
      (member : (tree.destination directory ++ names, .file content) ∈ tree.entries) :
      tree.entry? (tree.destination directory ++ names) = some (.file content) := by
    have inside : tree.Below directory (tree.destination directory ++ names) := ⟨names, more, rfl⟩
    unfold entry?
    rw [clear _ inside, once.lookup inside member]
    rfl
  rw [List.perm_ext_iff_of_nodup]
  · intro p
    rw [List.mem_filterMap, List.mem_map]
    constructor
    · rintro ⟨entry, member, listed⟩
      obtain ⟨names, content, more, rfl, rfl⟩ := listedPath?_eq_some listed
      exact ⟨names, (found names more).mp ⟨content, stands more member⟩, rfl⟩
    · rintro ⟨names, member, rfl⟩
      have more : names ≠ [] := fun same => nonempty (same ▸ member)
      obtain ⟨content, file⟩ := (found names more).mpr member
      exact ⟨_, mem_entries_of_file file, listedPath?_file more content⟩
  · -- Two entries with one path would be one location, which is listed once.
    refine List.Pairwise.filterMap _ (fun first second apart p taken q other same => ?_)
      once
    obtain ⟨names, content, more, rfl, rfl⟩ := listedPath?_eq_some taken
    obtain ⟨others, old, -, rfl, rfl⟩ := listedPath?_eq_some other
    exact apart ⟨names, more, rfl⟩ (by rw [beneath_injective directory same])
  · exact distinct.map (beneath_injective directory)

/-! ## Room below a directory -/

/-- In a location there are only directories, and in these only files. -/
structure Shelves (tree : Tree) (location : Location) : Prop where
  directories : ∀ name content, tree.entry? (location ++ [name]) ≠ some (.file content)
  files : ∀ name last, tree.entry? (location ++ [name, last]) ≠ some .directory

theorem Shelves.setDirectory (shelves : tree.Shelves location) (name : String) :
    Shelves (tree.set (location ++ [name]) .directory) location where
  directories other content file := by
    by_cases same : other = name
    · subst same
      rw [entry?_set] at file
      split at file
      · cases file
      · rw [if_pos rfl] at file
        cases file
    · rw [entry?_set_of_ne (by simpa using same)] at file
      exact shelves.directories other content file
  files other last := by
    rw [entry?_set_of_ne (by simp)]
    exact shelves.files other last

theorem Shelves.setFile (shelves : tree.Shelves location) (name last : String)
    (content : Content) :
    Shelves (tree.set (location ++ [name, last]) (.file content)) location where
  directories other old := by
    rw [entry?_set_of_ne (by simp)]
    exact shelves.directories other old
  files other further directory := by
    by_cases same : [other, further] = [name, last]
    · rw [same, entry?_set_self (shelves.files name last)] at directory
      cases directory
    · rw [entry?_set_of_ne (by simpa using same)] at directory
      exact shelves.files other further directory

structure Fits (name : String) : Prop where
  down : name ≠ ".."
  short : name.utf8ByteSize ≤ nameLimit

theorem locate_in (there : tree.HasDirectory directory)
    (usable : ¬ Unusable ⟨directory.root, directory.names ++ [name]⟩) (fits : Fits name) :
    tree.locate ⟨directory.root, directory.names ++ [name]⟩ =
      .ok (tree.destination directory ++ [name]) := by
  obtain ⟨location, located, stands⟩ := there
  obtain rfl := locate_ok located
  obtain ⟨-, -, reached⟩ := locate_ok_iff.mp located
  have followed : tree.follow (tree.startOf ⟨directory.root, directory.names ++ [name]⟩)
      (directory.names ++ [name]) = .ok (tree.destination directory ++ [name]) := by
    refine (follow_append reached).trans (follow_cons_ok.mpr ⟨stands, .inr fits.short, ?_⟩)
    rw [next_of_ne fits.down]
    rfl
  rw [locate_of_usable usable, followed]

/-- A directory can be made in another one, unless there is a file of its name. -/
theorem ensured_in (there : tree.HasDirectory directory)
    (usable : ¬ Unusable ⟨directory.root, directory.names ++ [name]⟩) (fits : Fits name)
    (free : ∀ content, tree.entry? (tree.destination directory ++ [name]) ≠ some (.file content)) :
    ∃ later, tree.ensured ⟨directory.root, directory.names ++ [name]⟩ = (.ok (), later) ∧
      (later = tree ∨ later = tree.set (tree.destination directory ++ [name]) .directory) := by
  have located := locate_in there usable fits
  cases stands : tree.entry? (tree.destination directory ++ [name]) with
  | none =>
      have made := makeDirectory_of_free located stands
      refine ⟨_, ?_, .inr rfl⟩
      rw [ensured_here]
      · unfold ensuredHere ensureDirectory
        rw [made]
      · intro fault failed
        rw [made] at failed
        cases failed
  | some entry =>
      cases entry with
      | file content => exact absurd stands (free content)
      | directory => exact ⟨tree, ensured_of_hasDirectory ⟨_, located, stands⟩, .inl rfl⟩

theorem not_unusable_above {root : String} {names : List String}
    (usable : ¬ Unusable ⟨root, names ++ [name]⟩) : ¬ Unusable ⟨root, names⟩ := by
  obtain ⟨clean, short⟩ := usable_iff.mp usable
  rw [hasNull_concat, Bool.or_eq_false_iff] at clean
  have above := (text_above_le root names name).trans (max_le_max_left 1 short)
  have limit : 1 ≤ pathLimit := by decide
  exact usable_iff.mpr ⟨clean.1, by omega⟩

/-- A text can be put two names below a directory that is there. -/
theorem place_in (there : tree.HasDirectory directory)
    (shelves : tree.Shelves (tree.destination directory))
    (usable : ¬ Unusable (twoBelow directory name last)) (first : Fits name) (second : Fits last)
    (s : String) :
    ∃ later, tree.place (twoBelow directory name last) (.ok s) = (.ok (), later) ∧
      later.Shelves (tree.destination directory) := by
  have above : ¬ Unusable ⟨directory.root, directory.names ++ [name]⟩ := not_unusable_above usable
  obtain ⟨middle, made, ways⟩ := ensured_in there above first (shelves.directories name)
  have extended : Extends tree middle :=
    (grows_ensured (congrArg Prod.snd made)).extends
  have inside : middle.Shelves (tree.destination directory) := by
    rcases ways with rfl | rfl
    · exact shelves
    · exact shelves.setDirectory name
  have place : middle.destination ⟨directory.root, directory.names ++ [name]⟩ =
      tree.destination directory ++ [name] :=
    (extended.destination _).trans (locate_ok (locate_in there above first)).symm
  have located : middle.locate (twoBelow directory name last) =
      .ok (tree.destination directory ++ [name, last]) := by
    refine (locate_in (hasDirectory_of_ensured made) usable second).trans ?_
    rw [place, List.append_assoc]
    rfl
  have written : middle.writeContent (twoBelow directory name last) (.text s) = .ok
      (middle.set (tree.destination directory ++ [name, last]) (.file (.text s))) :=
    writeContent_of_free located (inside.files name last)
  refine ⟨_, ?_, inside.setFile name last (.text s)⟩
  rw [place_ok_text (by rw [parent_twoBelow]; exact made), written]

/-- A directory that can be made, or is there, with room for files two names below it. -/
structure Roomy (tree : Tree) (directory : Path) : Prop where
  made : (tree.ensured directory).1 = .ok ()
  shelves : Shelves (tree.ensured directory).2 (tree.destination directory)

theorem Roomy.place (roomy : tree.Roomy directory)
    (usable : ¬ Unusable (twoBelow directory name last)) (first : Fits name) (second : Fits last)
    (s : String) :
    ∃ later, tree.place (twoBelow directory name last) (.ok s) = (.ok (), later) ∧
      later.Roomy directory := by
  rcases ready : tree.ensured directory with ⟨outcome, middle⟩
  obtain ⟨made, shelves⟩ := roomy
  rw [ready] at made shelves
  subst made
  have there := hasDirectory_of_ensured ready
  have grows := grows_ensured (congrArg Prod.snd ready)
  rw [← grows.destination] at shelves
  obtain ⟨later, placed, left⟩ := place_in there shelves usable first second s
  -- It makes no difference whether the directory is made before.
  have same : tree.place (twoBelow directory name last) (.ok s) = (.ok (), later) := by
    by_cases prepared : tree.Prepared directory
    · have still := prepared.ensured
      rw [ready] at still
      rw [← still]
      exact placed
    · have above : ¬ Unusable ⟨directory.root, directory.names ++ [name]⟩ :=
        not_unusable_above usable
      rcases place_prepared prepared above last (.ok s) with same | ⟨fault, again, -, failed⟩
      · rw [ready] at same
        rw [← same]
        exact placed
      · rw [ready] at failed
        rw [placed] at failed
        cases failed
  have extended : Extends middle later := by
    have extended := extends_place middle (twoBelow directory name last) (.ok s)
    rwa [placed] at extended
  have ensured := ensured_of_hasDirectory (extended.hasDirectory there)
  refine ⟨later, same, ?_, ?_⟩
  · rw [ensured]
  · rw [ensured, extended.destination]
    exact left

/-! ## Fresh directories -/

/-- A directory that can be made, or is there, and has nothing in it. -/
structure Fresh (tree : Tree) (directory : Path) : Prop where
  made : (tree.ensured directory).1 = .ok ()
  empty : ∀ names, names ≠ [] →
    Tree.entry? (tree.ensured directory).2 (tree.destination directory ++ names) = none

/-- It is enough to look at the entries when paths start at the root. -/
theorem fresh_of_entries (root : tree.current = [])
    (made : (tree.ensured directory).1 = .ok ())
    (above : ∀ entry ∈ (tree.ensured directory).2.entries,
      namesBelow? (tree.destination directory) entry.1 = none) : tree.Fresh directory where
  made := made
  empty names nonempty := by
    have grows : Grows (fun _ => False) tree (tree.ensured directory).2 := grows_ensured rfl
    unfold entry?
    rw [grows.current, root, if_neg]
    · refine List.lookup_eq_none_iff.mpr fun entry member => ?_
      rw [bne_iff_ne]
      rintro same
      have none := above entry member
      rw [← same, namesBelow?_append nonempty] at none
      cases none
    · intro inside
      have empty := List.prefix_nil.mp (List.isPrefixOf_iff_prefix.mp inside)
      exact nonempty (List.append_eq_nil_iff.mp empty).2

theorem Fresh.roomy (fresh : tree.Fresh directory) : tree.Roomy directory where
  made := fresh.made
  shelves := by
    refine ⟨fun name content file => ?_, fun name last stands => ?_⟩
    · rw [fresh.empty [name] (by simp)] at file
      cases file
    · rw [fresh.empty [name, last] (by simp)] at stands
      cases stands

theorem Fresh.absent (fresh : tree.Fresh directory) (below : tree.Below directory location) :
    tree.entry? location = none := by
  obtain ⟨names, nonempty, rfl⟩ := below
  have grows : Grows (fun _ => False) tree (tree.ensured directory).2 := grows_ensured rfl
  cases stands : tree.entry? (tree.destination directory ++ names) with
  | none => rfl
  | some entry =>
      have later := grows.others _ _ stands id
      rw [fresh.empty names nonempty] at later
      cases later

/-- No file stands at a fresh directory or below it. -/
theorem Fresh.apart (fresh : tree.Fresh directory) {content : Content}
    (file : tree.entry? location = some (.file content)) :
    ¬ tree.destination directory <+: location := by
  rintro ⟨names, rfl⟩
  by_cases here : names = []
  · subst here
    rw [List.append_nil] at file
    rcases ready : tree.ensured directory with ⟨outcome, later⟩
    have made := fresh.made
    rw [ready] at made
    subst made
    have grows := grows_ensured (congrArg Prod.snd ready)
    obtain ⟨place, located, stands⟩ := hasDirectory_of_ensured ready
    obtain rfl := locate_ok located
    rw [grows.destination, grows.others _ _ file id] at stands
    cases stands
  · rw [fresh.absent ⟨names, here, rfl⟩] at file
    cases file

theorem Fresh.isDirectory (fresh : tree.Fresh directory) :
    ∃ there, tree.isDirectory directory = .ok there := by
  rcases standing tree directory with there | obstructed | ⟨location, located, -⟩ | missing
  · exact ⟨true, isDirectory_of_hasDirectory there⟩
  · obtain ⟨fault, failed⟩ := ensured_of_obstructed obstructed
    have made := fresh.made
    rw [failed] at made
    cases made
  · exact ⟨_, test_of_located located⟩
  · obtain ⟨place, missing⟩ := missing
    refine ⟨false, ?_⟩
    unfold Tree.isDirectory test
    rw [missing]

end FlowCorpus.Storage.Tree
