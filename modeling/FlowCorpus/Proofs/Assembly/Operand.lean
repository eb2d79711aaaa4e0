import Mathlib.Data.Bool.AllAny
import FlowCorpus.Proofs.Assembly.Disassembly

/-!
# Operands with a register

A register stands in an operand alone, behind a bracket, or in front of the scale of an index. The
form of the operand decides which registers are masked in it: all of them alone, but behind a
bracket no frame pointer that is not a general-purpose register as well, and in front of a scale
only registers of sixty-four bits. An operand of one of these forms is in a masked line exactly when
it is in the line without masks and its register is not masked in that form.
-/

set_option autoImplicit false

namespace FlowCorpus.Assembly

open FlowCorpus.Text

/-! ## Forms -/

def disassemblyRegisters : List String :=
  framePointers ++ registers32 ++ registers64

/-- The scale of an index: decimal digits of any script, at least one. -/
structure Scale where
  digits : List Char
  some : digits ≠ []
  numeric : ∀ c ∈ digits, (decimalDigit? c).isSome = true

/-- The forms of an operand with a register, with or without the bracket that closes it. -/
inductive RegisterForm where
  | alone
  | inBracket (closed : Bool)
  | scaled (scale : Scale) (closed : Bool)

namespace RegisterForm

def ending (closed : Bool) : List Char :=
  if closed then [']'] else []

def write : RegisterForm → List Char → List Char
  | .alone, name => name
  | .inBracket closed, name => '[' :: (name ++ ending closed)
  | .scaled scale closed, name => name ++ '*' :: (scale.digits ++ ending closed)

def masked : RegisterForm → List String
  | .alone => disassemblyRegisters
  | .inBracket _ => registers32 ++ registers64
  | .scaled _ _ => registers64

end RegisterForm

open RegisterForm

variable {form : RegisterForm} {name : String}

theorem disassemblyRegisters_subset : disassemblyRegisters ⊆ registerNames := fun _ member =>
  List.mem_append_left riscvRegisters member

theorem not_mem_register (register : name ∈ disassemblyRegisters) {c : Char}
    (other : isPlain c = false) : c ∉ name.toList := by
  intro member
  have plain :=
    List.all_eq_true.mp (all_plain_of_mem (disassemblyRegisters_subset register)) c member
  rw [other] at plain
  cases plain

theorem Scale.not_mem (scale : Scale) {c : Char} (other : decimalDigit? c = none) :
    c ∉ scale.digits := by
  intro member
  have digit := scale.numeric c member
  rw [other] at digit
  cases digit

theorem not_mem_ending {c : Char} (other : c ≠ ']') (closed : Bool) : c ∉ ending closed := by
  cases closed with
  | false => exact List.not_mem_nil
  | true => exact fun member => other (List.mem_singleton.mp member)

/-- Characters that no operand with a register has: separators, and what the words that rules
look for have and no register has. -/
def foreign : List Char :=
  " ,.Xfglmno".toList

theorem not_mem_write (register : name ∈ disassemblyRegisters) {c : Char} (member : c ∈ foreign) :
    c ∉ form.write name.toList := by
  have names : ∀ c ∈ foreign, ∀ name ∈ disassemblyRegisters, c ∉ name.toList :=
    List.all_iff_forall_prop.mp (by decide +kernel)
  have signs : ∀ c ∈ foreign, c ≠ '[' ∧ c ≠ ']' ∧ c ≠ '*' ∧ decimalDigit? c = none :=
    List.all_iff_forall_prop.mp (by decide)
  have inName := names c member name register
  obtain ⟨opening, closing, star, digit⟩ := signs c member
  cases form with
  | alone => exact inName
  | inBracket closed =>
      rw [write, List.mem_cons, List.mem_append, not_or, not_or]
      exact ⟨opening, inName, not_mem_ending closing closed⟩
  | scaled scale closed =>
      rw [write, List.mem_append, List.mem_cons, List.mem_append, not_or, not_or, not_or]
      exact ⟨inName, star, scale.not_mem digit, not_mem_ending closing closed⟩

theorem write_ne_nil (register : name ∈ disassemblyRegisters) : form.write name.toList ≠ [] := by
  have every : ∀ name ∈ disassemblyRegisters, name.toList ≠ [] := by decide +kernel
  cases form with
  | alone => exact every name register
  | inBracket closed => exact List.cons_ne_nil _ _
  | scaled scale closed => exact List.append_ne_nil_of_left_ne_nil (every name register) _

/-! ## What is masked in a form -/

/-- No mask is a register. -/
theorem mask_ne {mask : String} (known : mask ∈ masks) (register : name ∈ disassemblyRegisters) :
    mask.toList ≠ name.toList := by
  have every : ∀ mask ∈ masks, mask ∉ disassemblyRegisters := by decide +kernel
  exact fun same => every mask known (String.toList_inj.mp same ▸ register)

theorem registerMask?_eq_none_iff :
    registerMask? name = none ↔ name ∉ registers32 ++ registers64 := by
  unfold registerMask?
  rw [List.mem_append, not_or, ← List.contains_iff_mem, ← List.contains_iff_mem]
  cases registers32.contains name <;> cases registers64.contains name <;> simp

theorem maskToken_register (register : name ∈ disassemblyRegisters) :
    ∃ mask ∈ masks, maskToken name.toList = mask.toList := by
  unfold maskToken
  rw [String.ofList_toList]
  by_cases frame : name ∈ framePointers
  · rw [if_pos (List.contains_iff_mem.mpr frame)]
    exact ⟨"fp", by decide, rfl⟩
  · have general : name ∈ registers32 ++ registers64 := by
      rw [disassemblyRegisters, List.append_assoc] at register
      exact (List.mem_append.mp register).resolve_left frame
    rw [if_neg (mt List.contains_iff_mem.mp frame)]
    cases found : registerMask? name with
    | none => exact absurd general (registerMask?_eq_none_iff.mp found)
    | some mask =>
        rw [← String.ofList_toList (s := name)] at found
        exact ⟨mask, (registerMask?_eq_some found).2, rfl⟩

theorem bracketed_ending {name : List Char} (plain : ']' ∉ name) (closed : Bool) :
    bracketed (name ++ ending closed) = (name, closed) := by
  unfold bracketed
  cases closed with
  | true =>
      rw [ending, if_pos rfl, List.reverse_concat]
      simp
  | false =>
      rw [ending, if_neg Bool.false_ne_true, List.append_nil]
      split
      · rename_i inner last
        exact absurd (List.mem_reverse.mp (last ▸ List.mem_cons_self)) plain
      · rfl

theorem maskToken_bracketed_iff (register : name ∈ disassemblyRegisters) (closed : Bool) :
    maskToken ('[' :: (name.toList ++ ending closed)) = '[' :: (name.toList ++ ending closed) ↔
      registerMask? name = none := by
  have inner := bracketed_ending (not_mem_register register (c := ']') (by decide)) closed
  rw [maskToken_bracket, closing, inner, String.ofList_toList]
  cases found : registerMask? name with
  | none => exact iff_of_true rfl rfl
  | some mask =>
      rw [← String.ofList_toList (s := name)] at found
      have other := mask_ne (registerMask?_eq_some found).2 register
      refine iff_of_false (fun same => other ?_) (Option.some_ne_none mask)
      exact List.append_cancel_right (List.cons.inj same).2

/-- A scale is no register. -/
theorem maskFactor_scale (scale : Scale) (more : List Char) :
    maskFactor (scale.digits ++ more) = scale.digits ++ more := by
  rcases maskFactor_cases (scale.digits ++ more) with ⟨register, -⟩ | same
  · obtain ⟨c, rest, whole, initial⟩ := exists_initial register
    have letters : ∀ c ∈ initials, decimalDigit? c = none :=
      List.all_iff_forall_prop.mp (by decide)
    cases digits : scale.digits with
    | nil => exact absurd digits scale.some
    | cons d others =>
        rw [digits] at whole
        obtain rfl : d = c := (List.cons.inj whole).1
        exact absurd (digits ▸ List.mem_cons_self) (scale.not_mem (letters d initial))
  · exact same

theorem maskFactor_eq_self_iff (register : name ∈ disassemblyRegisters) :
    maskFactor name.toList = name.toList ↔ name ∉ registers64 := by
  unfold maskFactor
  rw [String.ofList_toList]
  by_cases wide : name ∈ registers64
  · rw [if_pos (List.contains_iff_mem.mpr wide)]
    exact iff_of_false (mask_ne (by decide) register) (not_not_intro wide)
  · rw [if_neg (mt List.contains_iff_mem.mp wide)]
    exact iff_of_true rfl wide

theorem maskToken_scaled (register : name ∈ disassemblyRegisters) (scale : Scale) (closed : Bool) :
    maskToken (name.toList ++ '*' :: (scale.digits ++ ending closed)) =
      maskFactor name.toList ++ '*' :: (scale.digits ++ ending closed) := by
  have first : '*' ∉ name.toList := not_mem_register register (by decide)
  have last : '*' ∉ scale.digits ++ ending closed := by
    rw [List.mem_append, not_or]
    exact ⟨scale.not_mem (by decide), not_mem_ending (by decide) closed⟩
  have product : IsProduct (name.toList ++ '*' :: (scale.digits ++ ending closed)) := by
    refine ⟨List.mem_append_right _ List.mem_cons_self, fun bracket => ?_⟩
    rcases List.mem_append.mp (List.mem_of_mem_head? bracket) with inName | behind
    · exact not_mem_register register (c := '[') (by decide) inName
    · rw [List.mem_cons, List.mem_append] at behind
      exact behind.elim (by decide) fun later =>
        later.elim (scale.not_mem (by decide)) (not_mem_ending (by decide) closed)
  rw [maskToken_product product, split_append first, split_of_not_mem last, List.map_cons,
    List.map_singleton, maskFactor_scale, join_cons_cons, join_singleton, List.singleton_append]

/-- An operand changes exactly when its form masks the register. -/
theorem maskToken_write_iff (register : name ∈ disassemblyRegisters) :
    maskToken (form.write name.toList) = form.write name.toList ↔ name ∉ form.masked := by
  cases form with
  | alone =>
      obtain ⟨mask, known, same⟩ := maskToken_register register
      rw [write, same]
      exact iff_of_false (mask_ne known register) (not_not_intro register)
  | inBracket closed =>
      rw [write, maskToken_bracketed_iff register, registerMask?_eq_none_iff]
      rfl
  | scaled scale closed =>
      rw [write, maskToken_scaled register, List.append_left_inj, maskFactor_eq_self_iff register]
      rfl

/-! ## Operands of a masked line -/

/-- A token in which nothing was masked stays; any other has a character of a mask that no
register has. -/
theorem maskToken_eq_self_or_mem (token : List Char) :
    maskToken token = token ∨ ∃ c ∈ foreign, c ∈ maskToken token := by
  have every : ∀ mask ∈ masks, (foreign.any fun c => c ∈ mask.toList) = true := by decide
  have marked : ∀ mask ∈ masks, ∃ c ∈ foreign, c ∈ mask.toList := fun mask known =>
    List.any_iff_exists_prop.mp (every mask known)
  rcases maskToken_cases token with
    ⟨mask, known, -, same⟩ | ⟨-, mask, known, last, -, -, -, same⟩ | product | same
  · rw [same]
    exact .inr (marked mask known)
  · obtain ⟨c, letter, member⟩ := marked mask known
    rw [same]
    exact .inr ⟨c, letter, List.mem_cons_of_mem _ (List.mem_append_left last member)⟩
  · by_cases kept : ∀ factor ∈ split '*' token, maskFactor factor = factor
    · rw [maskToken_product product, List.map_congr_left kept, List.map_id']
      exact .inl (join_split '*' token)
    · push Not at kept
      obtain ⟨factor, member, changed⟩ := kept
      obtain ⟨-, mask⟩ := (maskFactor_cases factor).resolve_right changed
      have inside : maskFactor factor ∈ split '*' (maskToken token) := by
        rw [split_maskToken product]
        exact List.mem_map_of_mem member
      rw [mask] at inside
      have mark : ['g'] <:+: maskToken token :=
        (infix_iff_exists_piece (by decide)).mpr ⟨_, inside, by decide⟩
      exact .inr ⟨'g', by decide, mark.subset (by decide)⟩
  · exact .inl same

/-- An operand with a register is in a masked line only where it was before, and if it is not
masked there. -/
theorem mem_split_maskLine (register : name ∈ disassemblyRegisters) (s : List Char) :
    form.write name.toList ∈ split ' ' (maskLine s) ↔
      name ∉ form.masked ∧ form.write name.toList ∈ split ' ' s := by
  have mem_tokens (s : List Char) :
      form.write name.toList ∈ tokens ' ' s ↔ form.write name.toList ∈ split ' ' s := by
    have some : (!(form.write name.toList).isEmpty) = true := by simpa using write_ne_nil register
    exact List.mem_filter.trans (and_iff_left some)
  rw [← mem_tokens, ← mem_tokens, tokens_maskLine, List.mem_map, ← maskToken_write_iff register]
  constructor
  · rintro ⟨token, member, masked⟩
    rcases maskToken_eq_self_or_mem token with same | ⟨c, letter, inside⟩
    · rw [same] at masked
      rw [← masked]
      exact ⟨same, member⟩
    · exact absurd (masked ▸ inside) (not_mem_write register letter)
  · exact fun ⟨same, member⟩ => ⟨_, member, same⟩

/-! ## Lines of one operand -/

/-- A word with a character that is no digit is in an operand only if it is in the name. -/
theorem infix_of_infix_write {word : List Char} (whole : ∀ c ∈ "[]*".toList, c ∉ word)
    (letter : ∃ c ∈ word, decimalDigit? c = none) (inside : word <:+: form.write name.toList) :
    word <:+: name.toList := by
  have notNil : ¬ word <:+: [] := by
    rw [List.infix_nil]
    rintro rfl
    obtain ⟨c, member, -⟩ := letter
    cases member
  have before {s : List Char} {closed : Bool} (inside : word <:+: s ++ ending closed) :
      word <:+: s := by
    cases closed with
    | false => rwa [ending, if_neg Bool.false_ne_true, List.append_nil] at inside
    | true => exact (infix_before_or_behind (whole ']' (by decide)) inside).resolve_right notNil
  cases form with
  | alone => exact inside
  | inBracket closed =>
      have behind : word <:+: [] ∨ word <:+: name.toList ++ ending closed :=
        infix_before_or_behind (whole '[' (by decide)) inside
      exact before (behind.resolve_left notNil)
  | scaled scale closed =>
      refine (infix_before_or_behind (whole '*' (by decide)) inside).resolve_right fun behind => ?_
      obtain ⟨c, member, other⟩ := letter
      exact scale.not_mem other ((before behind).subset member)

/-- No rule finds the beginning of anything in an operand with a register. -/
theorem not_infix_write (register : name ∈ disassemblyRegisters) {word : String}
    (known : word ∈ "nop" :: replacements.map (·.1)) :
    ¬ word.toList <:+: form.write name.toList := by
  have kinds : ∀ word ∈ "nop" :: replacements.map (·.1),
      word ∈ ["0x", "str"] ∨ (foreign.any fun c => c ∈ word.toList) = true := by decide
  intro inside
  rcases kinds word known with short | other
  · have names : ∀ word ∈ ["0x", "str"], ∀ name ∈ disassemblyRegisters,
        ¬ word.toList <:+: name.toList := by decide +kernel
    have signs : ∀ word ∈ ["0x", "str"], ("[]*".toList.all fun c => c ∉ word.toList) = true ∧
        (word.toList.any fun c => decimalDigit? c = none) = true := by decide
    obtain ⟨whole, letter⟩ := signs word short
    exact names word short name register (infix_of_infix_write
      (List.all_iff_forall_prop.mp whole) (List.any_iff_exists_prop.mp letter) inside)
  · obtain ⟨c, letter, member⟩ := List.any_iff_exists_prop.mp other
    exact not_mem_write register letter (inside.subset member)

/-- Only the spaces change in a text in which no rule finds the beginning of anything. -/
theorem normalizeOperands_eq_spaceOperands {s : List Char}
    (none : ∀ word ∈ "nop" :: replacements.map (·.1), ¬ word.toList <:+: spaceOperands s) :
    normalizeOperands s = spaceOperands s := by
  rw [List.forall_mem_cons, List.forall_mem_map] at none
  have effect : ∀ t, t <:+ spaceOperands s → nopRule t = .none :=
    nopRule_puts.unmatched (List.forall_mem_singleton.mpr none.1)
  rw [normalizeOperands_eq,
    substituteAll_eq_self fun rule member => (wordRules_puts rule member).unmatched none.2,
    substitute_eq_self effect]

/-- A text without spaces and commas in which no rule finds the beginning of anything stays. -/
theorem normalizeOperands_eq_self {s : List Char} (spaces : ' ' ∉ s) (commas : ',' ∉ s)
    (none : ∀ word ∈ "nop" :: replacements.map (·.1), ¬ word.toList <:+: s) :
    normalizeOperands s = s := by
  have single : spacePairShape.Absent s := by
    intro t behind
    rw [← Bool.not_eq_true, spacePairShape, wordShape_starts]
    rintro ⟨rest, rfl, -⟩
    exact spaces (behind.subset List.mem_cons_self)
  have spaced : spaceOperands s = s := by
    rw [spaceOperands_of_not_mem commas, mergeSpacePairs_eq_self single]
  rw [normalizeOperands_eq_spaceOperands (spaced.symm ▸ none), spaced]

theorem normalizeOperands_write (register : name ∈ disassemblyRegisters) :
    normalizeOperands (form.write name.toList) = form.write name.toList :=
  normalizeOperands_eq_self (not_mem_write register (by decide))
    (not_mem_write register (by decide)) fun _ known => not_infix_write register known

/-- A masked line has an operand of the form with the register exactly when the line without masks
has it and the form does not mask the register; so no line at all has it exactly when the form masks
the register. -/
theorem mem_split_normalizeDisassembly (form : RegisterForm) {name : String}
    (register : name ∈ disassemblyRegisters) :
    (∀ text, form.write name.toList ∈ split ' ' (normalizeDisassembly text true).toList ↔
      name ∉ form.masked ∧
        form.write name.toList ∈ split ' ' (normalizeDisassembly text false).toList) ∧
    ((∀ text, form.write name.toList ∉ split ' ' (normalizeDisassembly text true).toList) ↔
      name ∈ form.masked) := by
  have each (text : String) :
      form.write name.toList ∈ split ' ' (normalizeDisassembly text true).toList ↔
        name ∉ form.masked ∧
          form.write name.toList ∈ split ' ' (normalizeDisassembly text false).toList := by
    rw [toList_normalizeDisassembly, toList_normalizeDisassembly, normalizeLine_true,
      normalizeLine_false]
    exact mem_split_maskLine register _
  refine ⟨each, fun never => ?_, fun masked text => ?_⟩
  · -- The operand alone is a line that the rules leave as it is.
    by_contra unmasked
    refine never (String.ofList (form.write name.toList)) ((each _).mpr ⟨unmasked, ?_⟩)
    rw [toList_normalizeDisassembly, normalizeLine_false, String.toList_ofList,
      normalizeOperands_write register,
      split_of_not_mem (not_mem_write register (c := ' ') (by decide))]
    exact List.mem_singleton_self _
  · rw [each]
    exact fun found => found.1 masked

theorem scaled_rcx_not_mem : "rcx" ∈ disassemblyRegisters ∧
    ∀ text, "rcx*8]".toList ∉ split ' ' (normalizeDisassembly text true).toList := by
  have register : "rcx" ∈ disassemblyRegisters := by decide +kernel
  have scale : ∀ c ∈ ['8'], (decimalDigit? c).isSome = true := List.forall_mem_singleton.mpr rfl
  have wide : "rcx" ∈ registers64 := by decide +kernel
  have all := mem_split_normalizeDisassembly (.scaled ⟨['8'], by decide, scale⟩ true) register
  exact ⟨register, all.2.mpr wide⟩

example : (disassemblyRegisters.filter fun name => !(inBracket true).masked.contains name) =
    ["ebp", "x29", "s8"] := by
  decide +kernel

/-- A frame pointer behind a bracket and a scaled register of thirty-two bits stay in a line whose
other registers are masked. -/
theorem normalizeDisassembly_frame_bracket :
    normalizeDisassembly "mov eax, dword [ebp + eax*4]" true = "mov reg32 dword [ebp + eax*4]" ∧
    ∃ name ∈ framePointers, (inBracket false).write name.toList ∈
      split ' ' (normalizeDisassembly "mov eax, dword [ebp + eax*4]" true).toList :=
  ⟨by decide +kernel, "ebp", by decide, by decide +kernel⟩

end FlowCorpus.Assembly
