import FlowCorpus.Proofs.Assembly.Mask
import FlowCorpus.Proofs.Assembly.Shape

/-!
# Disassembly a second time

A line of disassembly stays as it is under a second normalization exactly when the rules have left
no pair of spaces, and have put no word behind a short literal, a relocation or a local name that
the word completes. Everything else that the rules look for is gone after the first time.
-/

set_option autoImplicit false

namespace FlowCorpus.Assembly

open FlowCorpus.Text

/-! ## Spaces -/

def spacePairShape : Shape :=
  wordShape " " (· == ' ') fun _ => false

def commaShape : Shape where
  front := []
  run := (· == ',')

theorem commaShape_absent {s : List Char} : commaShape.Absent s ↔ ',' ∉ s := by
  induction s with
  | nil => exact iff_of_true Shape.absent_nil List.not_mem_nil
  | cons c rest ih =>
      have first : commaShape.starts (c :: rest) = (c == ',') := Bool.and_true _
      rw [Shape.absent_cons, first, ih, List.mem_cons, not_or, beq_eq_false_iff_ne, ne_comm]

theorem mergeSpacePairs_sublist (s : List Char) : (mergeSpacePairs s).Sublist s := by
  fun_induction mergeSpacePairs s with
  | case1 rest ih => exact (ih.cons ' ').cons_cons ' '
  | case2 c rest _ ih => exact ih.cons_cons c
  | case3 => exact .slnil

theorem mergeSpacePairs_eq_self {s : List Char} (absent : spacePairShape.Absent s) :
    mergeSpacePairs s = s := by
  fun_induction mergeSpacePairs s with
  | case1 rest ih => cases absent _ List.suffix_rfl
  | case2 c rest _ ih => rw [ih (Shape.absent_cons.mp absent).2]
  | case3 => rfl

/-- If no space is lost, no pair was there. -/
theorem absent_of_mergeSpacePairs {s : List Char}
    (same : s.countP isTakenOut ≤ (mergeSpacePairs s).countP isTakenOut) :
    spacePairShape.Absent s := by
  fun_induction mergeSpacePairs s with
  | case1 rest ih =>
      have fewer := (mergeSpacePairs_sublist rest).countP_le (p := isTakenOut)
      have space : isTakenOut ' ' = true := by decide
      simp only [List.countP_cons_of_pos space] at same
      omega
  | case2 c rest single ih =>
      simp only [List.countP_cons] at same
      refine Shape.absent_cons.mpr ⟨?_, ih (Nat.le_of_add_le_add_right same)⟩
      rw [← Bool.not_eq_true, spacePairShape, wordShape_starts]
      rintro ⟨more, whole, reached⟩
      obtain ⟨rfl, rfl⟩ := List.cons.inj whole
      cases rest with
      | nil => cases reached
      | cons d others =>
          rw [List.takeWhile_cons] at reached
          split at reached
          · rename_i space
            exact single others rfl (congrArg (· :: others) (beq_iff_eq.mp space))
          · cases reached
  | case3 => exact Shape.absent_nil

def spaceForComma (c : Char) : Char :=
  if c = ',' then ' ' else c

theorem spaceOperands_eq (s : List Char) :
    spaceOperands s = mergeSpacePairs (s.map spaceForComma) := rfl

theorem spaceOperands_of_not_mem {s : List Char} (plain : ',' ∉ s) :
    spaceOperands s = mergeSpacePairs s := by
  have same : s.map spaceForComma = s.map id :=
    List.map_congr_left fun c member => if_neg fun (comma : c = ',') => plain (comma ▸ member)
  rw [spaceOperands_eq, same, List.map_id]

theorem absent_spaceOperands (s : List Char) : commaShape.Absent (spaceOperands s) := by
  rw [commaShape_absent, spaceOperands_eq]
  intro member
  obtain ⟨c, -, comma⟩ := List.mem_map.mp ((mergeSpacePairs_sublist _).subset member)
  unfold spaceForComma at comma
  split at comma
  · cases comma
  · contradiction

/-! ## Instructions without effect -/

def nopShape : Shape :=
  wordShape "nop" (· != '\n') fun _ => false

def onLine (shape : Shape) : Bool :=
  shape.front.all (fun inClass => !inClass '\n') && !shape.run '\n'

theorem goesOn_of_onLine {shape : Shape} (line : onLine shape = true) {t : List Char}
    (next : ∀ c ∈ t.head?, c = '\n') {classes : List (Char → Bool)}
    (behind : classes <:+ shape.front) : shape.goesOn classes t = false := by
  rw [onLine, Bool.and_eq_true, List.all_eq_true, Bool.not_eq_true'] at line
  cases t with
  | nil => exact Shape.goesOn_nil classes
  | cons c rest =>
      obtain rfl := next c rfl
      cases classes with
      | nil => rw [Shape.goesOn, line.2, Bool.false_and]
      | cons inClass classes =>
          have outside := line.1 inClass (behind.subset List.mem_cons_self)
          rw [Shape.goesOn, (Bool.not_eq_true' _).mp outside, Bool.false_and]

theorem nopRule_eq_some {s w : List Char} {n : Nat} : nopRule s = some (n, w) ↔
    ∃ rest, s = "nop".toList ++ rest ∧ 3 + (lineRun rest).length = n ∧ "nop".toList = w := by
  simp only [← isPrefixOf?_eq_some]
  unfold nopRule
  cases "nop".toList.isPrefixOf? s with
  | none => simp
  | some rest => simp

theorem nopRule_productive : Productive nopRule := by
  intro s taken word found
  obtain ⟨rest, -, rfl, -⟩ := nopRule_eq_some.mp found
  omega

theorem nopRule_puts : Puts [("nop", "nop")] nopRule := by
  intro s taken word found
  obtain ⟨rest, rfl, rfl, rfl⟩ := nopRule_eq_some.mp found
  exact ⟨_, List.mem_singleton_self _,
    List.prefix_take_iff.mpr ⟨List.prefix_append _ rest, Nat.le_add_right 3 _⟩, rfl⟩

/-- The rest of the line is dropped. -/
theorem substitute_nop (rest : List Char) :
    substitute nopRule ("nop".toList ++ rest) =
      "nop".toList ++ substitute nopRule (rest.dropWhile (· != '\n')) := by
  have matched : nopRule ('n' :: 'o' :: 'p' :: rest) =
      some (2 + (lineRun rest).length + 1, "nop".toList) :=
    nopRule_eq_some.mpr ⟨rest, rfl, by omega, rfl⟩
  change substitute nopRule ('n' :: 'o' :: 'p' :: rest) = _
  rw [substitute_of_some matched, Nat.add_comm 2, List.drop_succ_cons, List.drop_succ_cons,
    lineRun, drop_length_takeWhile]

theorem nopInduction {motive : List Char → Prop} (nil : motive [])
    (keep : ∀ c rest, nopRule (c :: rest) = none → motive rest → motive (c :: rest))
    (nop : ∀ rest, motive (rest.dropWhile (· != '\n')) → motive ("nop".toList ++ rest))
    (s : List Char) : motive s := by
  induction s using substituteInduction nopRule_productive with
  | nil => exact nil
  | keep c rest unmatched ih => exact keep c rest unmatched ih
  | put c rest taken word matched ih =>
      obtain ⟨more, whole, length, -⟩ := nopRule_eq_some.mp matched
      obtain ⟨rfl, rfl⟩ := List.cons.inj whole
      obtain rfl : taken = (lineRun more).length + 2 := by omega
      change motive ("nop".toList ++ more)
      refine nop more ?_
      rw [← drop_length_takeWhile]
      exact ih

theorem head?_substitute_nop (s : List Char) :
    ∀ c ∈ (substitute nopRule (s.dropWhile (· != '\n'))).head?, c = '\n' := by
  have next := List.head?_dropWhile_not (· != '\n') s
  cases below : s.dropWhile (· != '\n') with
  | nil => simp [substitute_nil]
  | cons c rest =>
      rw [below] at next
      obtain rfl : c = '\n' := bne_eq_false_iff_eq.mp next
      have unmatched : nopRule ('\n' :: rest) = none := rfl
      rw [substitute_of_none unmatched]
      simp

theorem within_nop {shape : Shape} (line : onLine shape = true) (s : List Char) :
    Shape.Within shape (substitute nopRule s) s := by
  induction s using nopInduction with
  | nil => exact .refl []
  | keep c rest unmatched ih =>
      rw [substitute_of_none unmatched]
      exact ih.cons c
  | nop rest ih =>
      have whole := List.takeWhile_append_dropWhile (p := (· != '\n')) (l := rest)
      rw [substitute_nop]
      conv_rhs => rw [← whole]
      exact (ih.leftOut _ fun classes behind =>
        goesOn_of_onLine line (head?_substitute_nop rest) behind).append _

theorem absent_nop (s : List Char) : nopShape.Absent (substitute nopRule s) := by
  have line : onLine nopShape = true := by decide +kernel
  induction s using nopInduction with
  | nil => exact Shape.absent_nil
  | keep c rest unmatched ih =>
      rw [substitute_of_none unmatched, Shape.absent_cons]
      refine ⟨?_, ih⟩
      rw [← Bool.not_eq_true]
      intro here
      have there := ((within_nop line rest).cons c).goesOn _ List.suffix_rfl here
      obtain ⟨more, whole, -⟩ := wordShape_starts.mp there
      rw [nopRule, isPrefixOf?_eq_some.mpr whole] at unmatched
      cases unmatched
  | nop rest ih =>
      have stuck : nopShape.goesOn [] (substitute nopRule (rest.dropWhile (· != '\n'))) = false :=
        goesOn_of_onLine line (head?_substitute_nop rest) List.nil_suffix
      rw [substitute_nop]
      exact Shape.absent_cons.mpr
        ⟨stuck, Shape.absent_cons.mpr ⟨rfl, Shape.absent_cons.mpr ⟨rfl, ih⟩⟩⟩

theorem substitute_nop_eq_self {s : List Char} (absent : nopShape.Absent s) :
    substitute nopRule s = s := by
  induction s using nopInduction with
  | nil => rfl
  | keep c rest unmatched ih =>
      rw [substitute_of_none unmatched, ih (Shape.absent_cons.mp absent).2]
  | nop rest ih =>
      have none : nopShape.goesOn [] rest = false := absent _ List.suffix_rfl
      have same : rest.dropWhile (· != '\n') = rest := by
        cases rest with
        | nil => rfl
        | cons c more =>
            have feed : (c != '\n') = false := (Bool.and_true _).symm.trans none
            rw [List.dropWhile_cons, feed]
            rfl
      rw [same] at ih
      rw [substitute_nop, same, ih (absent.of_suffix (List.suffix_append _ rest))]

theorem countP_nop_le (p : Char → Bool) (s : List Char) :
    (substitute nopRule s).countP p ≤ s.countP p := by
  refine countP_substitute_le nopRule_productive (fun t taken word found => ?_) s
  obtain ⟨pair, member, lead, rfl⟩ := nopRule_puts t taken word found
  obtain rfl := List.mem_singleton.mp member
  exact lead.sublist.countP_le

/-! ## What is gone -/

theorem normalizeOperands_eq (s : List Char) :
    normalizeOperands s = substitute nopRule (substituteAll wordRules (spaceOperands s)) := by
  rw [normalizeOperands, disassemblyRules_eq, substituteAll, List.foldl_append]
  rfl

def goneShapes : List (List Shape) :=
  literalShapes ++ nameShapes

theorem wordRules_productive : ∀ rule ∈ wordRules, Productive rule := fun rule member =>
  (wordRules_lower rule member).productive

/-- The rule that looks for the shape takes it out, and no later one brings it back. -/
theorem absent_normalizeOperands {shapes : List Shape} (member : shapes ∈ wordShapes)
    {shape : Shape} (inside : shape ∈ shapes)
    (keeps : ∀ pair ∈ replacements, shape.keeps pair.1.toList pair.2.toList = true)
    (line : onLine shape = true) (s : List Char) : shape.Absent (normalizeOperands s) := by
  obtain ⟨rule, found, takes⟩ := Shape.exists_takes wordRules_take member
  rw [normalizeOperands_eq]
  exact (within_nop line _).absent (Shape.absent_substituteAll wordRules_productive wordRules_puts
    keeps (List.mem_of_mem_tail found) (takes.all shape inside) _)

theorem absent_comma (s : List Char) : commaShape.Absent (normalizeOperands s) := by
  rw [normalizeOperands_eq]
  exact (within_nop (by decide +kernel) _).absent
    ((Shape.within_substituteAll wordRules_productive wordRules_puts (by decide +kernel) _).absent
      (absent_spaceOperands s))

theorem absent_local {shape : Shape} (member : shape ∈ localShapes) (s : List Char) :
    shape.Absent (normalizeOperands s) := by
  have keeps : ∀ shape ∈ localShapes, ∀ pair ∈ replacements,
      shape.keeps pair.1.toList pair.2.toList = true := by decide +kernel
  have line : ∀ shape ∈ localShapes, onLine shape = true := by decide +kernel
  exact absent_normalizeOperands (by simp [wordShapes]) member (keeps shape member)
    (line shape member) s

theorem absent_gone {shapes : List Shape} (member : shapes ∈ goneShapes) {shape : Shape}
    (inside : shape ∈ shapes) (s : List Char) :
    shape.Absent (normalizeOperands s) ∧ shape.Absent (maskLine (normalizeOperands s)) := by
  have keeps : ∀ shapes ∈ goneShapes, ∀ shape ∈ shapes, ∀ pair ∈ replacements,
      shape.keeps pair.1.toList pair.2.toList = true := by decide +kernel
  have line : ∀ shapes ∈ goneShapes, ∀ shape ∈ shapes, onLine shape = true := by decide +kernel
  have kept : ∀ shapes ∈ goneShapes, ∀ shape ∈ shapes, keptByMasks shape = true := by
    decide +kernel
  have known : shapes ∈ wordShapes := by
    simp only [wordShapes, goneShapes, List.mem_append, List.mem_cons] at member ⊢
    grind
  have absent := absent_normalizeOperands known inside (keeps shapes member shape inside)
    (line shapes member shape inside) s
  exact ⟨absent, absent_maskLine (kept shapes member shape inside) absent⟩

/-! ## A second time -/

def normalizeLine (maskRegisters : Bool) (s : List Char) : List Char :=
  if maskRegisters then maskLine (normalizeOperands s) else normalizeOperands s

theorem normalizeLine_false (s : List Char) : normalizeLine false s = normalizeOperands s :=
  if_neg Bool.false_ne_true

theorem normalizeLine_true (s : List Char) :
    normalizeLine true s = maskLine (normalizeOperands s) :=
  if_pos rfl

theorem toList_normalizeDisassembly (text : String) (maskRegisters : Bool) :
    (normalizeDisassembly text maskRegisters).toList = normalizeLine maskRegisters text.toList :=
  String.toList_ofList

/-- What the rules look for and can still be in their result. With masks no pair of spaces is
left; without them no local name is. -/
def leftovers (maskRegisters : Bool) : List Shape :=
  addressShape :: relocationShape :: if maskRegisters then localShapes else [spacePairShape]

theorem spacePair_absent_append {token : List Char} (plain : ' ' ∉ token) {s : List Char}
    (absent : spacePairShape.Absent s) : spacePairShape.Absent (token ++ s) := by
  refine Shape.absent_append (fun rest behind some => ?_) absent
  cases rest with
  | nil => exact absurd rfl some
  | cons c more =>
      have other : (c == ' ') = false :=
        beq_false_of_ne fun same => plain (behind.subset (same ▸ List.mem_cons_self))
      change (!(c == ' ') || _) = true
      rw [other]
      rfl

theorem spacePair_absent_join {ts : List (List Char)} (proper : ∀ token ∈ ts, IsToken token) :
    spacePairShape.Absent (join [' '] ts) := by
  induction ts with
  | nil => exact Shape.absent_nil
  | cons token rest ih =>
      rw [List.forall_mem_cons] at proper
      cases rest with
      | nil =>
          have single := spacePair_absent_append proper.1.2 Shape.absent_nil
          rwa [List.append_nil, ← join_singleton [' '] token] at single
      | cons next more =>
          rw [join_cons_cons, List.singleton_append]
          refine spacePair_absent_append proper.1.2 (Shape.absent_cons.mpr ⟨?_, ih proper.2⟩)
          obtain ⟨others, joined⟩ := join_cons [' '] next more
          rw [joined]
          have first := proper.2 next List.mem_cons_self
          cases next with
          | nil => exact absurd rfl first.1
          | cons c inner =>
              have other : (c == ' ') = false :=
                beq_false_of_ne fun same => first.2 (same ▸ List.mem_cons_self)
              have second : spacePairShape.starts (' ' :: (c :: inner ++ others)) =
                  ((c == ' ') && true) := rfl
              rw [second, other]
              rfl

structure Gone (maskRegisters : Bool) (line : List Char) : Prop where
  comma : commaShape.Absent line
  nop : nopShape.Absent line
  gone : ∀ shapes ∈ goneShapes, ∀ shape ∈ shapes, shape.Absent line
  locals : maskRegisters = false → ∀ shape ∈ localShapes, shape.Absent line
  spaces : maskRegisters = true → spacePairShape.Absent line ∧ maskLine line = line

theorem gone_normalizeLine (maskRegisters : Bool) (s : List Char) :
    Gone maskRegisters (normalizeLine maskRegisters s) := by
  have nop : nopShape.Absent (normalizeOperands s) := by
    rw [normalizeOperands_eq]
    exact absent_nop _
  cases maskRegisters with
  | false =>
      rw [normalizeLine_false]
      exact {
        comma := absent_comma s
        nop := nop
        gone := fun shapes member shape inside => (absent_gone member inside s).1
        locals := fun _ shape member => absent_local member s
        spaces := fun masked => absurd masked Bool.false_ne_true }
  | true =>
      rw [normalizeLine_true]
      have proper : ∀ token ∈ (tokens ' ' (normalizeOperands s)).map maskToken, IsToken token := by
        rw [← tokens_maskLine]
        exact fun token => isToken_of_mem
      exact {
        comma := absent_maskLine (by decide +kernel) (absent_comma s)
        nop := absent_maskLine (by decide +kernel) nop
        gone := fun shapes member shape inside => (absent_gone member inside s).2
        locals := fun plain => absurd plain.symm Bool.false_ne_true
        spaces := fun _ => ⟨spacePair_absent_join proper, maskLine_maskLine _⟩ }

variable {maskRegisters : Bool} {line : List Char}

theorem forall_wordShapes {p : Shape → Prop} :
    (∀ shapes ∈ wordShapes, ∀ shape ∈ shapes, p shape) ↔
      (∀ shapes ∈ goneShapes, ∀ shape ∈ shapes, p shape) ∧ p addressShape ∧ p relocationShape ∧
        ∀ shape ∈ localShapes, p shape := by
  simp only [wordShapes, goneShapes, List.forall_mem_append, List.forall_mem_cons]
  tauto

theorem forall_leftovers {p : Shape → Prop} :
    (∀ shape ∈ leftovers maskRegisters, p shape) ↔ p addressShape ∧ p relocationShape ∧
      (maskRegisters = true → ∀ shape ∈ localShapes, p shape) ∧
      (maskRegisters = false → p spacePairShape) := by
  cases maskRegisters <;> simp [leftovers]

theorem Gone.absent (gone : Gone maskRegisters line)
    (settled : ∀ shape ∈ leftovers maskRegisters, shape.Absent line) :
    spacePairShape.Absent line ∧ ∀ shapes ∈ wordShapes, ∀ shape ∈ shapes, shape.Absent line := by
  obtain ⟨address, relocation, locals, spaces⟩ := forall_leftovers.mp settled
  rw [forall_wordShapes]
  cases maskRegisters with
  | false => exact ⟨spaces rfl, gone.gone, address, relocation, gone.locals rfl⟩
  | true => exact ⟨(gone.spaces rfl).1, gone.gone, address, relocation, locals rfl⟩

theorem Gone.normalizeLine_eq_self (gone : Gone maskRegisters line)
    (settled : ∀ shape ∈ leftovers maskRegisters, shape.Absent line) :
    normalizeLine maskRegisters line = line := by
  obtain ⟨spaces, words⟩ := gone.absent settled
  have operands : normalizeOperands line = line := by
    rw [normalizeOperands_eq, spaceOperands_of_not_mem (commaShape_absent.mp gone.comma),
      mergeSpacePairs_eq_self spaces, substituteAll_eq_self (wordRules_unmatched_iff.mpr words),
      substitute_nop_eq_self gone.nop]
  cases maskRegisters with
  | false => rw [normalizeLine_false, operands]
  | true => rw [normalizeLine_true, operands, (gone.spaces rfl).2]

theorem countP_normalizeLine_le (maskRegisters : Bool) (s : List Char) :
    (normalizeLine maskRegisters s).countP isTakenOut ≤
      (substituteAll wordRules (spaceOperands s)).countP isTakenOut := by
  have operands : (normalizeOperands s).countP isTakenOut ≤ _ :=
    normalizeOperands_eq s ▸ countP_nop_le isTakenOut _
  cases maskRegisters with
  | false =>
      rw [normalizeLine_false]
      exact operands
  | true =>
      rw [normalizeLine_true]
      exact Nat.le_trans (countP_maskLine_le (by decide) _) operands

/-- In a line that stays as it is no rule finds anything: each match, and each pair of spaces,
would cost it a character that no later rule can give back. -/
theorem absent_of_normalizeLine_eq_self (comma : commaShape.Absent line)
    (same : normalizeLine maskRegisters line = line) :
    spacePairShape.Absent line ∧ ∀ shapes ∈ wordShapes, ∀ shape ∈ shapes, shape.Absent line := by
  have kept := countP_normalizeLine_le maskRegisters line
  rw [same] at kept
  have spaces : spacePairShape.Absent line := by
    refine absent_of_mergeSpacePairs ?_
    rw [← spaceOperands_of_not_mem (commaShape_absent.mp comma)]
    exact Nat.le_trans kept (countP_substituteAll_le wordRules_lower _)
  rw [spaceOperands_of_not_mem (commaShape_absent.mp comma), mergeSpacePairs_eq_self spaces]
    at kept
  exact ⟨spaces, wordRules_unmatched_iff.mp (unmatched_of_substituteAll wordRules_lower kept)⟩

/-- A line stays as it is the second time exactly when nothing is left over. -/
theorem normalizeDisassembly_again_iff (text : String) (maskRegisters : Bool) :
    normalizeDisassembly (normalizeDisassembly text maskRegisters) maskRegisters =
        normalizeDisassembly text maskRegisters ↔
      ∀ shape ∈ leftovers maskRegisters,
        shape.Absent (normalizeDisassembly text maskRegisters).toList := by
  have gone := gone_normalizeLine maskRegisters text.toList
  rw [← String.toList_inj, toList_normalizeDisassembly, toList_normalizeDisassembly]
  constructor
  · intro same
    obtain ⟨spaces, words⟩ := absent_of_normalizeLine_eq_self gone.comma same
    obtain ⟨-, address, relocation, locals⟩ := forall_wordShapes.mp words
    exact forall_leftovers.mpr ⟨address, relocation, fun _ => locals, fun _ => spaces⟩
  · exact gone.normalizeLine_eq_self

example : normalizeDisassembly (normalizeDisassembly "mov qword [rax + rcx*8 + 0x643]" true) true =
    "mov qword [reg64 + reg64*8 + IMM]" := by
  decide +kernel

/-- The word for a data object goes on with the literal in front of it, and the second time the two
are an address. -/
theorem normalizeDisassembly_short_literal :
    normalizeDisassembly "0x1obj" false = "0x1DATA" ∧
    normalizeDisassembly (normalizeDisassembly "0x1obj" false) false = "MEMTA" ∧
    normalizeDisassembly (normalizeDisassembly "0x1obj" false) false ≠
      normalizeDisassembly "0x1obj" false := by
  decide +kernel

/-- Each of the leftovers is left in some line. -/
theorem exists_leftover (maskRegisters : Bool) : ∀ shape ∈ leftovers maskRegisters,
    ∃ text, ¬ shape.Absent (normalizeDisassembly text maskRegisters).toList := by
  have locals : ∀ shape ∈ localShapes,
      ∃ text, ¬ shape.Absent (normalizeDisassembly text true).toList := by
    refine List.forall_mem_cons.mpr ⟨⟨"loc r8", by decide +kernel⟩, ?_⟩
    exact List.forall_mem_singleton.mpr ⟨"loc x29 a", by decide +kernel⟩
  rw [forall_leftovers]
  cases maskRegisters with
  | false =>
      exact ⟨⟨"0x1obj", by decide +kernel⟩, ⟨"[reloc11loc a b]", by decide +kernel⟩,
        fun masked => absurd masked Bool.false_ne_true, fun _ => ⟨"a    b", by decide +kernel⟩⟩
  | true =>
      exact ⟨⟨"0x1obj", by decide +kernel⟩, ⟨"[reloc11loc a b]", by decide +kernel⟩,
        fun _ => locals, fun plain => absurd plain.symm Bool.false_ne_true⟩

end FlowCorpus.Assembly
