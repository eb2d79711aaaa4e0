import Mathlib.Data.List.Induction
import FlowCorpus.Proofs.Storage.Growth
import FlowCorpus.Proofs.Text.Pieces

/-!
# Files below a directory

In a proper tree every entry stands in a directory. The files below a directory are then reached
through directories only, so that they are read the same in every later tree that does not change
them.
-/

set_option autoImplicit false

namespace FlowCorpus.Storage

structure IsName (name : String) : Prop where
  nonempty : name ≠ ""
  noDot : name ≠ "."
  noDoubleDot : name ≠ ".."
  noSlash : '/' ∉ name.toList

instance (name : String) : Decidable (IsName name) :=
  decidable_of_iff (name ≠ "" ∧ name ≠ "." ∧ name ≠ ".." ∧ '/' ∉ name.toList)
    ⟨fun ⟨nonempty, noDot, noDoubleDot, noSlash⟩ => ⟨nonempty, noDot, noDoubleDot, noSlash⟩,
      fun ⟨nonempty, noDot, noDoubleDot, noSlash⟩ => ⟨nonempty, noDot, noDoubleDot, noSlash⟩⟩

/-- A name is the text of the path to its entry. -/
theorem IsName.below {name : String} (isName : IsName name) (base : Path) :
    base.below name = { base with names := base.names ++ [name] } := by
  have root : Path.rootOf name.toList = "" := by
    cases chars : name.toList with
    | nil => rfl
    | cons c rest =>
        have other : c ≠ '/' := by
          rintro rfl
          exact isName.noSlash (chars ▸ List.mem_cons_self)
        simp [ Path.rootOf, other]
  have names : Path.namesOf name.toList = [name] := by
    simp [ Path.namesOf, Text.split_of_not_mem isName.noSlash, isName.nonempty, isName.noDot]
  simp [ Path.below, Path.ofText, Path.join, root, names]

theorem noSlash_of_mem_names {s name : String} (member : name ∈ (Path.ofText s).names) :
    '/' ∉ name.toList := by
  simp only [ Path.ofText, Path.namesOf, List.mem_filter, List.mem_map] at member
  obtain ⟨⟨piece, found, rfl⟩, -⟩ := member
  rw [String.toList_ofList]
  exact Text.not_mem_of_mem_split found

namespace Tree

structure IsProper (tree : Tree) : Prop where
  above : ∀ location name, (tree.entry? (location ++ [name])).isSome →
    tree.entry? location = some .directory
  names : ∀ entry ∈ tree.entries, ∀ name ∈ entry.1, IsName name

/-- It is enough to look at the entries when paths start at the root. -/
theorem isProper_of_entries {tree : Tree} (root : tree.current = [])
    (above : ∀ entry ∈ tree.entries, tree.entry? entry.1.dropLast = some .directory)
    (names : ∀ entry ∈ tree.entries, ∀ name ∈ entry.1, IsName name) : tree.IsProper where
  above location name below := by
    have inside : (tree.entries.lookup (location ++ [name])).isSome := by
      simpa [ entry?, root] using below
    obtain ⟨entry, found⟩ := Option.isSome_iff_exists.mp inside
    obtain ⟨before, after, shape, -⟩ := List.lookup_eq_some_iff.mp found
    have directory := above (location ++ [name], entry) (by simp [shape])
    simpa using directory
  names := names

variable {changed : Location → Prop} {tree later : Tree}

def Paved (tree : Tree) : Prop :=
  ∀ location name, (tree.entry? (location ++ [name])).isSome →
    tree.entry? location = some .directory

theorem IsProper.paved (proper : tree.IsProper) : tree.Paved :=
  proper.above

theorem Paved.above_all (paved : tree.Paved) {location : Location} {names : List String}
    (below : (tree.entry? (location ++ names)).isSome) (nonempty : names ≠ []) :
    tree.entry? location = some .directory := by
  induction names using List.reverseRecOn with
  | nil => exact absurd rfl nonempty
  | append_singleton before name ih =>
      rw [← List.append_assoc] at below
      have directory := paved _ _ below
      rcases before.eq_nil_or_concat with rfl | ⟨_, _, rfl⟩
      · rwa [List.append_nil] at directory
      · exact ih (by rw [directory]; rfl) (by simp)

theorem IsProper.above_all (proper : tree.IsProper) {location : Location} {names : List String}
    (below : (tree.entry? (location ++ names)).isSome) (nonempty : names ≠ []) :
    tree.entry? location = some .directory :=
  proper.paved.above_all below nonempty

/-- Names between which there are only directories are followed alike later. -/
theorem Grows.follow_eq (grows : Grows changed tree later) {start : Location} {names : List String}
    (down : ∀ name ∈ names, name ≠ "..")
    (paved : ∀ before rest, names = before ++ rest → rest ≠ [] →
      tree.entry? (start ++ before) = some .directory) :
    later.follow start names = tree.follow start names := by
  induction names generalizing start with
  | nil => rfl
  | cons name rest ih =>
      rw [List.forall_mem_cons] at down
      have here : tree.entry? start = some .directory := by
        simpa using paved [] (name :: rest) rfl (List.cons_ne_nil _ _)
      have further : later.follow (start ++ [name]) rest = tree.follow (start ++ [name]) rest :=
        ih down.2 fun before others shape more => by
          simpa using paved (name :: before) others (by simp [shape]) more
      simp only [ Tree.follow, here, grows.directories start here, if_neg down.1, further]

theorem follow_append {start location : Location} {names rest : List String}
    (followed : tree.follow start names = .ok location) :
    tree.follow start (names ++ rest) = tree.follow location rest := by
  induction names generalizing start with
  | nil => cases followed; rfl
  | cons name more ih =>
      obtain ⟨here, short, further⟩ := follow_cons_ok.mp followed
      rw [← ih further, List.cons_append]
      unfold next
      by_cases up : name = ".."
      · simp only [ Tree.follow, here, if_pos up]
      · have fits := Nat.not_lt.mpr (short.resolve_left up)
        simp only [ Tree.follow, here, if_neg up, if_neg fits]

theorem isDirectory_ok {path : Path} (found : tree.isDirectory path = .ok true) :
    tree.follow (tree.startOf path) path.names = .ok (tree.destination path) ∧
      tree.entry? (tree.destination path) = some .directory := by
  unfold isDirectory test at found
  split at found
  · rename_i location located
    obtain rfl := locate_ok located
    refine ⟨(locate_ok_iff.mp located).2.2, ?_⟩
    cases there : tree.entry? (tree.destination path) with
    | none => simp [there] at found
    | some entry =>
        cases entry with
        | file content => simp [there, Entry.isDirectory] at found
        | directory => rfl
  · cases found
  · cases found

theorem namesBelow?_eq {location below : Location} {names : List String}
    (found : namesBelow? location below = some names) : below = location ++ names ∧ names ≠ [] := by
  induction location generalizing below with
  | nil =>
      cases below with
      | nil => cases found
      | cons name rest =>
          cases found
          exact ⟨rfl, List.cons_ne_nil _ _⟩
  | cons first more ih =>
      cases below with
      | nil => cases found
      | cons name rest =>
          simp only [namesBelow?] at found
          split at found
          · rename_i same
            obtain ⟨shape, nonempty⟩ := ih found
            exact ⟨by rw [same, shape, List.cons_append], nonempty⟩
          · cases found

/-- The files are listed as they come when they come in order. -/
theorem filesBelow_of_sorted {path : Path} (location : Location)
    {files : List Path} (found : tree.isDirectory path = .ok true)
    (located : tree.locate path = .ok location)
    (listed : (tree.entries.filterMap fun (l, e) =>
      match namesBelow? location l, e with
      | some names, .file _ => some { path with names := path.names ++ names }
      | _, _ => none) = files)
    (ordered : files.Pairwise fun p q => p.le q = true) :
    tree.filesBelow path true = .ok files := by
  unfold filesBelow
  rw [found]
  simp only [bind, Except.bind, ↓reduceIte, located]
  refine congrArg Except.ok ((congrArg Path.sorted ?_).trans (List.mergeSort_of_pairwise ordered))
  rw [← listed]
  rfl

structure Listed (tree : Tree) (directory path : Path) (names : List String) : Prop where
  nonempty : names ≠ []
  shape : path = { directory with names := directory.names ++ names }
  entry : ∃ content, (tree.destination directory ++ names, Entry.file content) ∈ tree.entries
  followed : tree.follow (tree.startOf directory) directory.names =
    .ok (tree.destination directory)

theorem listed_of_mem_filesBelow {directory path : Path} {deep : Bool} {files : List Path}
    (listed : tree.filesBelow directory deep = .ok files) (member : path ∈ files) :
    ∃ names, tree.Listed directory path names := by
  obtain ⟨isThere, found, rest⟩ := Outcome.bind_ok listed
  cases isThere with
  | false =>
      cases rest
      cases member
  | true =>
      obtain ⟨location, located, result⟩ := Outcome.bind_ok rest
      cases result
      obtain ⟨followed, -⟩ := isDirectory_ok found
      obtain rfl := locate_ok located
      rw [ Path.sorted, List.mem_mergeSort, List.mem_filterMap] at member
      obtain ⟨⟨place, entry⟩, stands, taken⟩ := member
      cases below : namesBelow? (tree.destination directory) place with
      | none => simp [below] at taken
      | some names =>
          cases entry with
          | directory => simp [below] at taken
          | file content =>
              simp only [below, Option.ite_none_right_eq_some, Option.some.injEq] at taken
              obtain ⟨-, rfl⟩ := taken
              obtain ⟨rfl, nonempty⟩ := namesBelow?_eq below
              exact ⟨names, nonempty, rfl, ⟨content, stands⟩, followed⟩

variable {directory path : Path} {names : List String}

theorem Listed.isName (listed : tree.Listed directory path names) (proper : tree.IsProper)
    {name : String} (member : name ∈ names) : IsName name := by
  obtain ⟨content, stands⟩ := listed.entry
  exact proper.names _ stands name (List.mem_append_right _ member)

theorem Listed.destination (listed : tree.Listed directory path names) (proper : tree.IsProper) :
    tree.destination path = tree.destination directory ++ names := by
  obtain rfl := listed.shape
  have down : ∀ name ∈ names, name ≠ ".." := fun name member =>
    (listed.isName proper member).noDoubleDot
  exact (descend_append _ _ _).trans (descend_of_forall_ne down _)

theorem Listed.present (listed : tree.Listed directory path names) :
    ∃ entry, tree.entry? (tree.destination directory ++ names) = some entry := by
  obtain ⟨content, stands⟩ := listed.entry
  unfold entry?
  split
  · exact ⟨_, rfl⟩
  · cases found : tree.entries.lookup (tree.destination directory ++ names) with
    | some entry => exact ⟨entry, rfl⟩
    | none =>
        rw [List.lookup_eq_none_iff] at found
        have other := found _ stands
        rw [bne_self_eq_false] at other
        cases other

/-- A listed file is read the same later if nothing was written in its place. -/
theorem Listed.readText (listed : tree.Listed directory path names) (proper : tree.IsProper)
    (grows : Grows changed tree later) (kept : ¬ changed (tree.destination path)) :
    later.readText path = tree.readText path := by
  obtain ⟨entry, there⟩ := listed.present
  have down : ∀ name ∈ names, name ≠ ".." := fun name member =>
    (listed.isName proper member).noDoubleDot
  have place := listed.destination proper
  have followed : later.follow (tree.startOf path) path.names =
      tree.follow (tree.startOf path) path.names := by
    obtain rfl := listed.shape
    have earlier := listed.followed
    change later.follow (tree.startOf directory) (directory.names ++ names) =
      tree.follow (tree.startOf directory) (directory.names ++ names)
    rw [follow_append (grows.follow earlier), follow_append earlier]
    refine grows.follow_eq down fun before rest shape more => ?_
    rw [shape, ← List.append_assoc] at there
    exact proper.above_all (by rw [there]; rfl) more
  have located : later.locate path = tree.locate path := by
    have same : later.startOf path = tree.startOf path := by simp only [startOf, grows.current]
    simp only [ Tree.locate, same, followed]
  rw [← place] at there
  unfold Tree.readText
  rw [located]
  cases reached : tree.locate path with
  | error fault => rfl
  | ok location =>
      obtain rfl := locate_ok reached
      simp only [bind, Except.bind, there, grows.others _ _ there kept]

end Tree
end FlowCorpus.Storage
