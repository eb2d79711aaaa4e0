import FlowCorpus.Proofs.Batch.Naming
import FlowCorpus.Proofs.Dedup.Grouping

/-!
# Binaries named by stems

The directory for the graphs of an input file has the tokens of the stem, the last one with a dash
and the scheme behind it. A binary is read off a token before the last one, so that the directory
names the binary that the stem names, and the graphs of two stems come together just when these are
the same.
-/

set_option autoImplicit false

namespace FlowCorpus.Dedup

open FlowCorpus.Batch FlowCorpus.Feature FlowCorpus.Storage FlowCorpus.Text

/-! ## Tokens -/

/-- The token of a stem that names the binary: the second of at least three, or the last but one of
at least two. -/
def stemBinary? : PathFormat → List String → Option String
  | .cisco, tokens => if 3 ≤ tokens.length then tokens[1]? else none
  | .binkit, tokens => if 2 ≤ tokens.length then tokens[tokens.length - 2]? else none

theorem tokensOf_append {s ending : String} (plain : '_' ∉ ending.toList) :
    tokensOf (s ++ ending) = onLast (· ++ ending) (tokensOf s) := by
  unfold tokensOf
  rw [String.toList_append, split_append_plain plain]
  apply map_onLast
  intro piece
  rw [String.ofList_append, String.ofList_toList]

/-- What is added to the last token does not count. -/
theorem binary?_onLast {format : PathFormat} {tokens : List String} {binary : String}
    (named : stemBinary? format tokens = some binary) (g : String → String) :
    format.binary? (onLast g tokens) = some binary := by
  cases format with
  | cisco =>
      obtain ⟨three, found⟩ := Option.ite_none_right_eq_some.mp named
      rcases tokens with _ | ⟨first, _ | ⟨second, _ | ⟨third, rest⟩⟩⟩
      · cases three
      · simp at three
      · simp at three
      · exact found
  | binkit =>
      obtain ⟨two, found⟩ := Option.ite_none_right_eq_some.mp named
      have place : tokens.length - 1 - 1 < tokens.length - 1 := by omega
      change (onLast g tokens).dropLast.getLast? = some binary
      rw [dropLast_onLast, List.getLast?_eq_getElem?, List.length_dropLast, List.getElem?_dropLast,
        if_pos place, Nat.sub_sub]
      exact found

/-! ## Directories -/

variable {format : PathFormat} {stem other f g binary second : String}

theorem graphPath_eq (slashless : '/' ∉ stem.toList) (plain : '/' ∉ f.toList) (directory : Path)
    (scheme : Scheme) :
    graphPath directory stem scheme f =
      { directory with
        names := directory.names ++ [stem ++ "-" ++ scheme.name] ++
          [stem ++ "-" ++ safeName f ++ ".json"] } := by
  unfold graphPath
  rw [(isName_scheme slashless scheme).below, (isName_graph slashless plain).below]

theorem binaryName_graphPath (slashless : '/' ∉ stem.toList)
    (named : stemBinary? format (tokensOf stem) = some binary) (directory : Path) (scheme : Scheme)
    (plain : '/' ∉ f.toList) :
    binaryName (.ok format) (graphPath directory stem scheme f) = .ok binary := by
  have parent : (graphPath directory stem scheme f).parent.name = stem ++ ("-" ++ scheme.name) := by
    rw [graphPath_eq slashless plain, Path.parent, Path.name, List.dropLast_concat,
      List.getLastD_concat, String.append_assoc]
  have joined : '_' ∉ ("-" ++ scheme.name).toList := by cases scheme <;> decide
  unfold binaryName
  simp only [bind, Except.bind, parent, tokensOf_append joined, binary?_onLast named]
  rfl

theorem endsWith_append (s ending : String) : (s ++ ending).endsWith ending = true := by
  rw [String.endsWith_eq_endsWith_toSlice, String.Slice.endsWith_string_iff, String.copy_toSlice,
    String.toList_append]
  exact List.suffix_append _ _

theorem graphPath_mem_corpusFiles {files : List Path} {directory : Path} {scheme : Scheme}
    (slashless : '/' ∉ stem.toList) (plain : '/' ∉ f.toList)
    (found : graphPath directory stem scheme f ∈ files) :
    graphPath directory stem scheme f ∈ corpusFiles files := by
  rw [corpusFiles, List.mem_filter]
  refine ⟨found, ?_⟩
  rw [graphPath_eq slashless plain, Path.name, List.getLastD_concat]
  exact endsWith_append _ _

/-! ## Groups -/

def Together (corpus : GraphCorpus) (p q : Path) : Prop :=
  ∃ group ∈ corpus.groups, p ∈ group.2 ∧ q ∈ group.2

theorem together_iff {format : Except Fault PathFormat} {corpus : GraphCorpus} {files : List Path}
    {p q : Path} (groups : corpus.groups = groupsOf format files) (first : p ∈ files)
    (last : q ∈ files) (named : binaryOf? format p = some binary)
    (other : binaryOf? format q = some second) : Together corpus p q ↔ binary = second := by
  unfold Together
  rw [groups]
  constructor
  · rintro ⟨group, member, one, two⟩
    obtain ⟨name, -, rfl⟩ := List.mem_map.mp member
    have here := (mem_filesNaming.mp one).2
    have there := (mem_filesNaming.mp two).2
    rw [named] at here
    rw [other] at there
    rw [Option.some.inj here, Option.some.inj there]
  · rintro rfl
    refine ⟨(binary, filesNaming format binary files), ?_, ?_, ?_⟩
    · exact List.mem_map.mpr ⟨binary, mem_binariesOf.mpr ⟨p, first, named⟩, rfl⟩
    · exact mem_filesNaming.mpr ⟨first, named⟩
    · exact mem_filesNaming.mpr ⟨last, other⟩

/-- A graph is found under the binary that the stem of its input file names, whatever the output
directory, the scheme and the function are. In a corpus the graphs of two stems are in one group
exactly when the stems name one binary. -/
theorem together_graphPath_iff (format : PathFormat) {stem other binary second : String}
    (slashless : '/' ∉ stem.toList) (relative : '/' ∉ other.toList)
    (named : stemBinary? format (tokensOf stem) = some binary)
    (namedOther : stemBinary? format (tokensOf other) = some second) :
    (∀ (directory : Path) (scheme : Scheme) (f : String), '/' ∉ f.toList →
      binaryName (.ok format) (graphPath directory stem scheme f) = .ok binary) ∧
    ∀ (directory : Path) (w : Workspace) (files : List Path),
      w.tree.filesBelow directory true = .ok files →
      ∃ corpus later, (GraphCorpus.ofDirectory (.ok format) directory).on w = (.ok corpus, later) ∧
        ∀ (base base' : Path) (scheme scheme' : Scheme) (f g : String),
          '/' ∉ f.toList → '/' ∉ g.toList →
          graphPath base stem scheme f ∈ files → graphPath base' other scheme' g ∈ files →
          (Together corpus (graphPath base stem scheme f) (graphPath base' other scheme' g) ↔
            binary = second) := by
  constructor
  · intro directory scheme f plain
    exact binaryName_graphPath slashless named directory scheme plain
  · intro directory w files listed
    obtain ⟨later, ran, -⟩ := on_ofDirectory (.ok format) listed
    refine ⟨_, later, ran, ?_⟩
    intro base base' scheme scheme' f g plain plain' found found'
    apply together_iff rfl (graphPath_mem_corpusFiles slashless plain found)
      (graphPath_mem_corpusFiles relative plain' found')
    · exact congrArg Except.toOption (binaryName_graphPath slashless named base scheme plain)
    · exact congrArg Except.toOption (binaryName_graphPath relative namedOther base' scheme' plain')

def stemTree : Tree where
  entries := [(["o"], .directory),
    (["o", "arm_cat_gcc-esil"], .directory),
    (["o", "arm_cat_gcc-esil", "arm_cat_gcc-f.json"], .file (.text "")),
    (["o", "arm_ls_gcc-esil"], .directory),
    (["o", "arm_ls_gcc-esil", "arm_ls_gcc-f.json"], .file (.text "")),
    (["o", "x86_ls_v2_gcc-tiknib"], .directory),
    (["o", "x86_ls_v2_gcc-tiknib", "x86_ls_v2_gcc-g.json"], .file (.text ""))]

def stemFiles : List Path :=
  [graphPath (Path.ofText "o") "arm_cat_gcc" .esil "f",
    graphPath (Path.ofText "o") "arm_ls_gcc" .esil "f",
    graphPath (Path.ofText "o") "x86_ls_v2_gcc" .tiknib "g"]

theorem together_graphPath_iff_cisco :
    stemBinary? .cisco (tokensOf "arm_cat_gcc") = some "cat" ∧
      stemBinary? .cisco (tokensOf "arm_ls_gcc") = some "ls" ∧
      stemBinary? .cisco (tokensOf "x86_ls_v2_gcc") = some "ls" ∧
      stemTree.filesBelow (Path.ofText "o") true = .ok stemFiles ∧
      ∃ corpus later, (GraphCorpus.ofDirectory (.ok .cisco) (Path.ofText "o")).on ⟨stemTree, []⟩ =
          (.ok corpus, later) ∧
        Together corpus (graphPath (Path.ofText "o") "arm_ls_gcc" .esil "f")
          (graphPath (Path.ofText "o") "x86_ls_v2_gcc" .tiknib "g") ∧
        ¬ Together corpus (graphPath (Path.ofText "o") "arm_ls_gcc" .esil "f")
          (graphPath (Path.ofText "o") "arm_cat_gcc" .esil "f") := by
  have cat : stemBinary? .cisco (tokensOf "arm_cat_gcc") = some "cat" := by decide +kernel
  have ls : stemBinary? .cisco (tokensOf "arm_ls_gcc") = some "ls" := by decide +kernel
  have longer : stemBinary? .cisco (tokensOf "x86_ls_v2_gcc") = some "ls" := by decide +kernel
  have listed : stemTree.filesBelow (Path.ofText "o") true = .ok stemFiles :=
    Tree.filesBelow_of_sorted ["o"] (by decide +kernel) (by decide +kernel) (by decide +kernel)
      (by decide +kernel)
  obtain ⟨-, alike⟩ := together_graphPath_iff .cisco (by decide) (by decide) ls longer
  obtain ⟨-, apart⟩ := together_graphPath_iff .cisco (by decide) (by decide) ls cat
  obtain ⟨corpus, left, ran, together⟩ := alike (Path.ofText "o") ⟨stemTree, []⟩ stemFiles listed
  obtain ⟨again, _, same, separate⟩ := apart (Path.ofText "o") ⟨stemTree, []⟩ stemFiles listed
  rw [ran] at same
  cases same
  refine ⟨cat, ls, longer, listed, corpus, left, ran, ?_, ?_⟩
  · apply (together _ _ _ _ _ _ _ _ _ _).mpr rfl
    · decide
    · decide
    · simp [stemFiles]
    · simp [stemFiles]
  · intro both
    refine absurd ((separate _ _ _ _ _ _ ?_ ?_ ?_ ?_).mp both) (by decide)
    · decide
    · decide
    · simp [stemFiles]
    · simp [stemFiles]

end FlowCorpus.Dedup
