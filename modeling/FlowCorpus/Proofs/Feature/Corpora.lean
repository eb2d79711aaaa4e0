import FlowCorpus.Proofs.Assembly.Operand
import FlowCorpus.Proofs.Feature.Walks

/-!
# Two corpora of instructions

The instructions of a function are written as one text or one by one. The two are made of the same
functions when both are skipped or the function was analysed, and of the same instructions when no
disassembly is a single character that is more than a blank.
-/

set_option autoImplicit false

namespace FlowCorpus.Feature

open FlowCorpus.Assembly FlowCorpus.Graph FlowCorpus.Outcome FlowCorpus.Program FlowCorpus.Text

/-- Lines as one text: those that are not empty, with spaces between them and in place of their
commas. -/
def joinLines (lines : List String) : String :=
  " ".intercalate ((lines.filter fun line => !line.isEmpty).map fun line =>
    String.ofList (line.toList.map spaceForComma))

/-- The first block of an analysed function is at an address of its own. -/
def Analysed (f : Function) : Prop :=
  ∃ first rest, f.blocks = first :: rest ∧ first.offset ≠ Flow.unanalysedOffset

/-- The disassembly of an instruction is one character, and not one that masks leave out. -/
def Overlooked (maskRegisters : Bool) (i : Instruction) : Prop :=
  ∃ text, i.disasm = some text ∧ text.length = 1 ∧
    (maskRegisters = true → text ≠ " " ∧ text ≠ ",")

def spelledLine (maskRegisters : Bool) (i : Instruction) : Option String :=
  i.disasm.map fun s => normalizeDisassembly s maskRegisters

def quotedLine (maskRegisters : Bool) (i : Instruction) : Option String :=
  (longText i.disasm).map fun s => normalizeDisassembly s maskRegisters

/-! ## Texts from lines -/

section Lines

variable {α β : Type} {f g : α → Option β}

theorem filterMap_sublist (narrower : ∀ a, f a = none ∨ f a = g a) (items : List α) :
    (items.filterMap f).Sublist (items.filterMap g) := by
  induction items with
  | nil => exact .slnil
  | cons a rest ih =>
      rcases narrower a with dropped | same
      · rw [List.filterMap_cons_none dropped]
        cases there : g a with
        | none => rwa [List.filterMap_cons_none there]
        | some b =>
            rw [List.filterMap_cons_some there]
            exact ih.cons b
      · rw [List.filterMap_cons, List.filterMap_cons, same]
        cases g a with
        | none => exact ih
        | some b => exact ih.cons_cons b

theorem filterMap_eq_iff (narrower : ∀ a, f a = none ∨ f a = g a) {items : List α} :
    items.filterMap f = items.filterMap g ↔ ∀ a ∈ items, f a = g a := by
  constructor
  · induction items with
    | nil => simp
    | cons a rest ih =>
        intro same
        have shorter := (filterMap_sublist narrower rest).length_le
        have here : f a = g a := by
          refine (narrower a).elim (fun dropped => ?_) id
          cases there : g a with
          | none => exact dropped
          | some b =>
              rw [List.filterMap_cons_none dropped, List.filterMap_cons_some there] at same
              rw [same, List.length_cons] at shorter
              omega
        rw [List.filterMap_cons, List.filterMap_cons, here] at same
        refine List.forall_mem_cons.mpr ⟨here, ih ?_⟩
        cases there : g a with
        | none => rwa [there] at same
        | some b =>
            rw [there] at same
            exact List.tail_eq_of_cons_eq same
  · exact List.filterMap_congr

end Lines

theorem spaceCommas_eq :
    spaceCommas = fun line => String.ofList (line.toList.map spaceForComma) := by
  funext line
  exact congrArg String.ofList (join_split_eq_map ',' ' ' line.toList)

/-- The text of more lines is longer, unless they are empty. -/
theorem eq_of_intercalate_eq {fewer texts : List String} (among : fewer.Sublist texts)
    (some : ∀ text ∈ texts, text ≠ "") (same : " ".intercalate fewer = " ".intercalate texts) :
    fewer = texts := by
  -- With a space in front of every line, the first one included, lengths only add up.
  let spaced (lines : List String) : List Char := lines.flatMap fun line => ' ' :: line.toList
  have size (lines : List String) :
      (" ".intercalate lines).length = (spaced lines).length - 1 := by
    rw [← String.length_toList, String.toList_intercalate]
    refine (length_join ' ' _).trans ?_
    rw [List.flatMap_map]
  obtain ⟨others, arranged⟩ := among.exists_perm_append
  have lengths : (" ".intercalate fewer).length = (" ".intercalate texts).length := by rw [same]
  have total : (spaced texts).length = (spaced fewer).length + (spaced others).length := by
    rw [← List.length_append, ← List.flatMap_append]
    exact (arranged.flatMap_right _).length_eq
  rw [size, size, total] at lengths
  cases others with
  | nil =>
      rw [List.append_nil] at arranged
      exact among.eq_of_length arranged.length_eq.symm
  | cons other rest =>
      have member : other ∈ texts := arranged.mem_iff.mpr (by simp)
      have length : other.toList.length ≠ 0 := fun none =>
        some other member (String.length_eq_zero_iff.mp none)
      have longer : (spaced (other :: rest)).length =
          other.toList.length + 1 + (spaced rest).length := List.length_append
      omega

theorem joinLines_eq_iff {fewer lines : List String}
    (among : (fewer.filter fun line => !line.isEmpty).Sublist
      (lines.filter fun line => !line.isEmpty)) :
    joinLines fewer = joinLines lines ↔
      (fewer.filter fun line => !line.isEmpty) = lines.filter fun line => !line.isEmpty := by
  constructor
  · intro same
    have mapped := eq_of_intercalate_eq (among.map fun line : String =>
      String.ofList (line.toList.map spaceForComma)) (fun text member => ?_) same
    · refine among.eq_of_length ?_
      simpa using congrArg List.length mapped
    · obtain ⟨line, kept, rfl⟩ := List.mem_map.mp member
      have some := (List.mem_filter.mp kept).2
      intro none
      have empty : line.toList = [] := by simpa using none
      rw [String.toList_eq_nil_iff.mp empty] at some
      cases some
  · intro same
    rw [joinLines, same, joinLines]

/-! ## Single characters -/

theorem normalizeOperands_singleton (c : Char) : normalizeOperands [c] = [spaceForComma c] := by
  have longer : ∀ word ∈ "nop" :: replacements.map (·.1), 1 < word.toList.length := by decide
  have spaced : spaceOperands [c] = [spaceForComma c] := by
    simp [spaceOperands_eq, mergeSpacePairs]
  rw [← spaced]
  refine normalizeOperands_eq_spaceOperands fun word known inside => ?_
  rw [spaced] at inside
  exact absurd inside.length_le (Nat.not_le.mpr (longer word known))

/-- Masks leave nothing of a space and a comma; no other character becomes the empty text. -/
theorem normalizeDisassembly_eq_empty_iff (maskRegisters : Bool) {text : String}
    (single : text.length = 1) :
    normalizeDisassembly text maskRegisters = "" ↔
      maskRegisters = true ∧ (text = " " ∨ text = ",") := by
  obtain ⟨c, letter⟩ := List.length_eq_one_iff.mp (String.length_toList.trans single)
  have space : spaceForComma c = ' ' ↔ text = " " ∨ text = "," := by
    rw [← String.toList_inj, ← String.toList_inj, letter]
    unfold spaceForComma
    split <;> simp_all
  rw [← String.toList_inj, toList_normalizeDisassembly, letter, ← space]
  cases maskRegisters with
  | false => simp [normalizeLine_false, normalizeOperands_singleton]
  | true =>
      rw [normalizeLine_true, normalizeOperands_singleton, maskLine]
      by_cases blank : spaceForComma c = ' '
      · rw [blank]
        exact iff_of_true rfl ⟨rfl, rfl⟩
      · have isToken : IsToken [spaceForComma c] :=
          ⟨List.cons_ne_nil _ _, fun member => blank (List.mem_singleton.mp member).symm⟩
        rw [tokens_of_not_mem isToken.2 isToken.1, List.map_singleton, join_singleton]
        exact iff_of_false isToken.maskToken.1 fun both => blank both.2

/-! ## Disassembly -/

variable {maskRegisters : Bool}

theorem quotedLine_cases (maskRegisters : Bool) (i : Instruction) :
    (givenText (quotedLine maskRegisters i) = givenText (spelledLine maskRegisters i) ∧
      ¬ Overlooked maskRegisters i) ∨
    (givenText (quotedLine maskRegisters i) = none ∧
      givenText (spelledLine maskRegisters i) ≠ none ∧ Overlooked maskRegisters i) := by
  unfold quotedLine spelledLine Overlooked longText givenText
  cases i.disasm with
  | none => simp
  | some text =>
      simp only [Option.some.injEq, exists_eq_left', Option.map_some]
      by_cases long : 1 < text.length
      · rw [Option.filter_some_pos (by simpa using long)]
        exact .inl ⟨rfl, fun overlooked => absurd overlooked.1 (Nat.ne_of_gt long)⟩
      · -- A short text is left out, which shows only if a line comes from it that is not empty.
        rw [Option.filter_some_neg (by simpa using long), Option.map_none, Option.filter_none]
        by_cases single : text.length = 1
        · have empty := normalizeDisassembly_eq_empty_iff maskRegisters single
          by_cases blank : normalizeDisassembly text maskRegisters = ""
          · obtain ⟨masked, left⟩ := empty.mp blank
            rw [blank]
            exact .inl ⟨rfl, fun overlooked => (not_or.mpr (overlooked.2 masked)) left⟩
          · have kept := fun masked => not_or.mp fun left => blank (empty.mpr ⟨masked, left⟩)
            exact .inr ⟨rfl, by simp [blank], single, kept⟩
        · have none : text = "" := String.length_eq_zero_iff.mp (by omega)
          rw [none]
          exact .inl ⟨by cases maskRegisters <;> rfl, fun overlooked => by cases overlooked.1⟩

theorem quotedLine_narrower (i : Instruction) :
    givenText (quotedLine maskRegisters i) = none ∨
      givenText (quotedLine maskRegisters i) = givenText (spelledLine maskRegisters i) :=
  (quotedLine_cases maskRegisters i).symm.imp And.left And.left

theorem quotedLine_eq_iff (i : Instruction) :
    givenText (quotedLine maskRegisters i) = givenText (spelledLine maskRegisters i) ↔
      ¬ Overlooked maskRegisters i := by
  rcases quotedLine_cases maskRegisters i with ⟨same, kept⟩ | ⟨dropped, spelled, overlooked⟩
  · exact iff_of_true same kept
  · rw [dropped]
    exact iff_of_false spelled.symm (not_not_intro overlooked)

theorem blocksLines_disasm (maskRegisters : Bool) (blocks : List Block) :
    blocksLines (.ok .disasm) maskRegisters blocks =
      .ok ((blocks.flatMap fun b => b.instructions).filterMap (quotedLine maskRegisters)) := by
  have each (b : Block) : blockLines (.ok .disasm) maskRegisters b =
      .ok (b.instructions.filterMap (quotedLine maskRegisters)) := by
    have lines : b.instructions.mapM (instructionLine .disasm maskRegisters) =
        .ok (b.instructions.map (quotedLine maskRegisters)) := List.mapM_pure
    change (b.instructions.mapM (instructionLine .disasm maskRegisters) >>= fun lines =>
      pure (lines.filterMap id)) = _
    rw [lines]
    change Except.ok ((b.instructions.map (quotedLine maskRegisters)).filterMap id) = _
    rw [List.filterMap_map]
    rfl
  induction blocks with
  | nil => rfl
  | cons b rest ih =>
      rw [blocksLines_cons (each b) ih, List.flatMap_cons, List.filterMap_append]

theorem joinLines_disasm_iff (maskRegisters : Bool) (blocks : List Block) :
    joinLines ((blocks.flatMap fun b => b.instructions).filterMap (quotedLine maskRegisters)) =
        joinLines (disassemblyLines maskRegisters blocks) ↔
      ∀ b ∈ blocks, ∀ i ∈ b.instructions, ¬ Overlooked maskRegisters i := by
  have spelled : disassemblyLines maskRegisters blocks =
      (blocks.flatMap fun b => b.instructions).filterMap (spelledLine maskRegisters) := by
    rw [List.filterMap_flatMap]
    rfl
  have given (line : Instruction → Option String) (items : List Instruction) :
      ((items.filterMap line).filter fun text => !text.isEmpty) =
        items.filterMap fun i => givenText (line i) := List.filter_filterMap
  rw [spelled, joinLines_eq_iff, given, given, filterMap_eq_iff quotedLine_narrower]
  · simp only [quotedLine_eq_iff, List.forall_mem_flatMap]
  · rw [given, given]
    exact filterMap_sublist quotedLine_narrower _

/-! ## Both corpora -/

theorem isBuildable_iff {f : Function} {minBlocks : Int} :
    Flow.isBuildable f minBlocks = true ↔ minBlocks ≤ f.blocks.length ∧ Analysed f := by
  unfold Flow.isBuildable Analysed
  cases f.blocks with
  | nil => simp
  | cons first rest => simp

theorem functionText_eq {scheme : NamedScheme} {maskRegisters : Bool} {f : Function}
    {own : List String} (ran : blocksLines scheme maskRegisters f.blocks = .ok own)
    (minBlocks : Int) : functionText scheme minBlocks maskRegisters f =
      .ok (if Flow.isBuildable f minBlocks then some (joinLines own) else none) := by
  unfold functionText
  split
  · rw [ran, spaceCommas_eq]
    rfl
  · rfl

/-- The lines of a function of enough blocks, and when they join to the text that it would have. -/
theorem functionLines_eq {scheme : Scheme} (textual : scheme.isTextual = true)
    (maskRegisters : Bool) (f : Function) :
    ∃ own all, blocksLines (.ok scheme) maskRegisters f.blocks = .ok own ∧
      (∀ minBlocks, functionLines (.ok scheme) minBlocks maskRegisters f =
        .ok (if (f.blocks.length : Int) < minBlocks then none else some all)) ∧
      (joinLines own = joinLines all ↔ (scheme = .disasm →
        ∀ b ∈ f.blocks, ∀ i ∈ b.instructions, ¬ Overlooked maskRegisters i)) := by
  have succeeds : Succeeds (blocksLines (.ok scheme) maskRegisters f.blocks) := by
    refine (succeeds_bind_and fun _ => iff_true_intro (succeeds_pure _)).mpr ⟨?_, trivial⟩
    exact succeeds_mapM.mpr fun b _ => succeeds_blockLines textual maskRegisters b
  obtain ⟨own, ran⟩ := succeeds
  by_cases disasm : scheme = .disasm
  · subst disasm
    cases (blocksLines_disasm maskRegisters f.blocks).symm.trans ran
    refine ⟨_, disassemblyLines maskRegisters f.blocks, ran, fun minBlocks => ?_, ?_⟩
    · change ite _ _ _ = _
      split <;> rfl
    · rw [joinLines_disasm_iff]
      exact (imp_iff_right rfl).symm
  · have esil : scheme = .esil := by
      cases scheme <;> first | rfl | exact absurd rfl disasm | cases textual
    subst esil
    refine ⟨own, own, ran, fun minBlocks => ?_, iff_of_true rfl fun other => absurd other disasm⟩
    change ite _ _ (blocksLines (.ok .esil) maskRegisters f.blocks >>= fun lines =>
      pure (some lines)) = _
    rw [ran]
    split <;> rfl

/-- A function is in both corpora or in none exactly when it has too few blocks or was analysed. It
then has the same instructions in both exactly when none is overlooked; expressions never are. -/
theorem functionText_eq_joinLines_iff {scheme : Scheme} (textual : scheme.isTextual = true)
    (minBlocks : Int) (maskRegisters : Bool) (f : Function) :
    ∃ text lines,
      functionText (.ok scheme) minBlocks maskRegisters f = .ok text ∧
      functionLines (.ok scheme) minBlocks maskRegisters f = .ok lines ∧
      (text = none ↔ f.blocks.length < minBlocks ∨ ¬ Analysed f) ∧
      (lines = none ↔ f.blocks.length < minBlocks) ∧
      (text = lines.map joinLines ↔ f.blocks.length < minBlocks ∨
        Analysed f ∧ (scheme = .disasm →
          ∀ b ∈ f.blocks, ∀ i ∈ b.instructions, ¬ Overlooked maskRegisters i)) := by
  obtain ⟨own, all, ran, lines, same⟩ := functionLines_eq textual maskRegisters f
  refine ⟨_, _, functionText_eq ran minBlocks, lines minBlocks, ?_⟩
  by_cases few : (f.blocks.length : Int) < minBlocks
  · have skipped : ¬ Flow.isBuildable f minBlocks := fun buildable =>
      absurd (isBuildable_iff.mp buildable).1 (not_le.mpr few)
    rw [if_neg skipped, if_pos few]
    exact ⟨iff_of_true rfl (.inl few), iff_of_true rfl few, iff_of_true rfl (.inl few)⟩
  · have analysed : Flow.isBuildable f minBlocks = true ↔ Analysed f :=
      isBuildable_iff.trans (and_iff_right (not_lt.mp few))
    rw [if_neg few, Option.map_some, or_iff_right few, or_iff_right few, ← analysed, ← same]
    refine ⟨?_, iff_of_false (Option.some_ne_none all) few, ?_⟩
    · split <;> simp_all
    · split <;> simp_all

/-- A function with texts of no character and of one, which masks leave out. -/
def sparse : Function where
  name := "sparse"
  offset := 16
  blocks := [
    { offset := 16, instructions := [{ offset := 16, kind := "cmp", disasm := some "" },
      { offset := 17, kind := "cmp" }, { offset := 18, kind := "cmp", disasm := some "," }] },
    { offset := 32, instructions := [{ offset := 32, kind := "ret", disasm := some "ret" }] }]

theorem functionText_eq_joinLines_sparse : Scheme.disasm.isTextual = true ∧
    ∃ text lines, functionText (.ok .disasm) 2 true sparse = .ok text ∧
      functionLines (.ok .disasm) 2 true sparse = .ok lines ∧
      text ≠ none ∧ text = lines.map joinLines := by
  have analysed : Analysed sparse := ⟨_, _, rfl, by decide⟩
  have kept : ∀ b ∈ sparse.blocks, ∀ i ∈ b.instructions, ¬ Overlooked true i := by
    simp [sparse, Overlooked, show "ret".length ≠ 1 by decide]
  have textual : Scheme.disasm.isTextual = true := rfl
  obtain ⟨text, lines, written, listed, skipped, -, same⟩ :=
    functionText_eq_joinLines_iff textual 2 true sparse
  refine ⟨textual, text, lines, written, listed, ?_, same.mpr (.inr ⟨analysed, fun _ => kept⟩)⟩
  rw [Ne, skipped, not_or, not_not]
  exact ⟨by decide, analysed⟩

def unanalysed : Function where
  name := "f"
  offset := 1
  size := some 20
  blocks := [
    { offset := 1, instructions := [{ offset := 1, kind := "mov", esil := some "1,eax,=" }] }]

def lettered : Function where
  name := "f"
  offset := 16
  blocks := [
    { offset := 16, instructions := [{ offset := 16, kind := "ill", disasm := some "x" }] }]

theorem functionLines_unanalysed :
    functionText (.ok .esil) 1 false unanalysed = .ok none ∧
    functionLines (.ok .esil) 1 false unanalysed = .ok (some ["1,eax,="]) ∧
    functionText (.ok .esil) 0 false { unanalysed with blocks := [] } = .ok none ∧
    functionLines (.ok .esil) 0 false { unanalysed with blocks := [] } = .ok (some []) ∧
    functionText (.ok .disasm) 1 false lettered = .ok (some "") ∧
    functionLines (.ok .disasm) 1 false lettered = .ok (some ["x"]) := by
  exact ⟨rfl, rfl, rfl, rfl, rfl, rfl⟩

end FlowCorpus.Feature
