import Mathlib.Tactic.FinCases
import FlowCorpus.Proofs.Assembly.Literal
import FlowCorpus.Proofs.Assembly.Register

/-!
# Expressions in one pass

The rules for expressions, one after the other on the whole text, do what one pass over the operands
does: each operand in front of a comma is looked at on its own, and the literal at its end becomes
a word. No word makes a literal with what it stands behind, so a second pass changes nothing.
-/

set_option autoImplicit false

namespace FlowCorpus.Assembly

open FlowCorpus.Text

/-! ## The literal at the end of an operand -/

/-- The hexadecimal literal at the end of an operand: what stands before it, the letter of its mark
and its digits. -/
def hexEnd? (operand : List Char) : Option (List Char × Char × List Char) :=
  match (operand.rdropWhile isHexDigit).reverse with
  | letter :: '0' :: before =>
    if (letter = 'x' ∨ letter = 'X') ∧ operand.rtakeWhile isHexDigit ≠ [] then
      some (before.reverse, letter, operand.rtakeWhile isHexDigit)
    else none
  | _ => none

def decimalEnd (operand : List Char) : List Char :=
  operand.rtakeWhile isDigit

/-- The word for a hexadecimal literal: a value with all high bits set or of up to three digits is
immediate, a longer one an address. -/
def hexWord (letter : Char) (digits : List Char) : String :=
  if letter = 'x' ∧ "ffff".toList <+: digits ∧ 5 ≤ digits.length then "IMM"
  else if digits.length ≤ 3 then "IMM"
  else "MEM"

def rewriteOperand (kind : String) (operand : List Char) : List Char :=
  match hexEnd? operand with
  | some (before, letter, digits) => before ++ (hexWord letter digits).toList
  | none =>
    if 4 ≤ (decimalEnd operand).length then
      operand.rdropWhile isDigit ++ (decimalWord kind).toList
    else operand

theorem hexEnd?_eq_some {operand before digits : List Char} {letter : Char} :
    hexEnd? operand = some (before, letter, digits) ↔
      operand = before ++ '0' :: letter :: digits ∧ (letter = 'x' ∨ letter = 'X') ∧
        digits ≠ [] ∧ digits.all isHexDigit = true := by
  constructor
  · intro found
    unfold hexEnd? at found
    split at found
    · rename_i l front shape
      split at found
      · rename_i valid
        cases found
        refine ⟨?_, valid.1, valid.2, List.all_eq_true.mpr fun c => List.mem_rtakeWhile_imp⟩
        have whole := List.rdropWhile_append_rtakeWhile (p := isHexDigit) (l := operand)
        rw [List.reverse_eq_iff.mp shape] at whole
        simpa using whole.symm
      · cases found
    · cases found
  · rintro ⟨rfl, marked, some, all⟩
    have outside : ∀ c ∈ (before ++ ['0', letter]).getLast?, isHexDigit c = false := by
      intro c last
      rw [List.getLast?_append] at last
      cases last
      rcases marked with rfl | rfl <;> decide
    have ends := rtakeWhile_run all outside
    rw [List.append_assoc] at ends
    unfold hexEnd?
    rw [show '0' :: letter :: digits = ['0', letter] ++ digits from rfl, ends.1, ends.2,
      List.reverse_append]
    simp [marked, some]

def EndsInLiteral (operand : List Char) : Prop :=
  (hexEnd? operand).isSome = true ∨ 4 ≤ (decimalEnd operand).length

theorem decimalEnd_eq_nil {operand : List Char}
    (last : ∀ c ∈ operand.getLast?, isDigit c = false) : decimalEnd operand = [] := by
  have noRun : [].all isDigit = true := rfl
  have ends := (rtakeWhile_run noRun last).1
  rwa [List.append_nil] at ends

/-- The letter in front of the last digits is none of a mark. -/
theorem hexEnd?_eq_none (before : List Char) {c : Char} {digits : List Char}
    (all : digits.all isHexDigit = true) (outside : isHexDigit c = false) (small : c ≠ 'x')
    (capital : c ≠ 'X') : hexEnd? (before ++ c :: digits) = none := by
  have outer : ∀ d ∈ (before ++ [c]).getLast?, isHexDigit d = false := by
    intro d last
    rw [List.getLast?_concat] at last
    cases last
    exact outside
  have front := (rtakeWhile_run all outer).2
  rw [List.append_assoc, List.singleton_append] at front
  unfold hexEnd?
  rw [front, List.reverse_concat]
  split
  · rename_i shape
    obtain ⟨rfl, -⟩ := List.cons.inj shape
    exact if_neg fun marked => marked.1.elim small capital
  · rfl

/-- No word ends in a literal, whatever it stands behind. -/
theorem noLiteral_word (before : List Char) (word : String)
    (member : word ∈ ["IMM", "MEM", "FUNC", "DATA"]) :
    hexEnd? (before ++ word.toList) = none ∧ decimalEnd (before ++ word.toList) = [] := by
  have last : ∃ c, word.toList.getLast? = some c ∧ isDigit c = false := by
    fin_cases member <;> exact ⟨_, rfl, rfl⟩
  have inner : ∃ front c digits, word.toList = front ++ c :: digits ∧
      digits.all isHexDigit = true ∧ isHexDigit c = false ∧ c ≠ 'x' ∧ c ≠ 'X' := by
    fin_cases member
    · exact ⟨['I', 'M'], 'M', [], by decide⟩
    · exact ⟨['M', 'E'], 'M', [], by decide⟩
    · exact ⟨['F', 'U'], 'N', ['C'], by decide⟩
    · exact ⟨['D', 'A'], 'T', ['A'], by decide⟩
  constructor
  · obtain ⟨front, c, digits, shape, all, outside, small, capital⟩ := inner
    rw [shape, ← List.append_assoc]
    exact hexEnd?_eq_none (before ++ front) all outside small capital
  · obtain ⟨c, ends, outside⟩ := last
    refine decimalEnd_eq_nil fun d member => ?_
    rw [List.getLast?_append, ends] at member
    cases member
    exact outside

theorem rewriteOperand_of_some {kind : String} {operand before digits : List Char} {letter : Char}
    (ends : hexEnd? operand = some (before, letter, digits)) :
    rewriteOperand kind operand = before ++ (hexWord letter digits).toList := by
  rw [rewriteOperand, ends]

theorem rewriteOperand_of_none {kind : String} {operand : List Char}
    (none : hexEnd? operand = none) :
    rewriteOperand kind operand =
      if 4 ≤ (decimalEnd operand).length then
        operand.rdropWhile isDigit ++ (decimalWord kind).toList
      else operand := by
  rw [rewriteOperand, none]

def Hexadecimal (word? : List Char → Option (List Char)) : Prop :=
  ∀ operand, (word? operand).isSome = true → ∃ letter digits, operand = '0' :: letter :: digits ∧
    (letter = 'x' ∨ letter = 'X') ∧ digits ≠ [] ∧ digits.all isHexDigit = true

variable {word? : List Char → Option (List Char)}

theorem Hexadecimal.rewriteEnd_of_none (words : Hexadecimal word?) {operand : List Char}
    (none : hexEnd? operand = none) : rewriteEnd word? operand = operand := by
  refine rewriteEnd_eq_self fun t behind => ?_
  rw [← Option.not_isSome_iff_eq_none]
  intro matched
  obtain ⟨letter, digits, rfl, valid⟩ := words t matched
  obtain ⟨before, whole⟩ := behind
  rw [hexEnd?_eq_some.mpr ⟨whole.symm, valid⟩] at none
  cases none

theorem Hexadecimal.rewriteEnd_of_some (words : Hexadecimal word?)
    {operand before digits : List Char} {letter : Char}
    (found : hexEnd? operand = some (before, letter, digits)) :
    rewriteEnd word? operand =
      ((word? ('0' :: letter :: digits)).map (before ++ ·)).getD operand := by
  obtain ⟨rfl, valid⟩ := hexEnd?_eq_some.mp found
  have only : ∀ t, t <:+ before ++ '0' :: letter :: digits → (word? t).isSome = true →
      t = '0' :: letter :: digits := by
    intro t behind matched
    obtain ⟨other, more, rfl, otherValid⟩ := words t matched
    obtain ⟨front, whole⟩ := behind
    rw [hexEnd?_eq_some.mpr ⟨whole.symm, otherValid⟩] at found
    cases found
    rfl
  cases word : word? ('0' :: letter :: digits) with
  | some w =>
      exact rewriteEnd_append word fun t behind matched => (only t behind matched ▸ le_rfl)
  | none =>
      refine rewriteEnd_eq_self fun t behind => ?_
      rw [← Option.not_isSome_iff_eq_none]
      intro matched
      rw [only t behind matched, word] at matched
      cases matched

/-! ## The four rules on one operand -/

theorem hexadecimal_highWord :
    Hexadecimal (runWord? highMark.isPrefixOf? isHexDigit (1 ≤ ·) "IMM".toList) := by
  intro operand matched
  obtain ⟨w, found⟩ := Option.isSome_iff_exists.mp matched
  obtain ⟨run, marked, some, all, -⟩ := runWord?_eq_some.mp found
  obtain rfl := List.isPrefixOf?_eq_some_iff_append_eq.mp marked
  refine ⟨'x', "ffff".toList ++ run, rfl, .inl rfl, by simp, ?_⟩
  rw [List.all_append, all]
  rfl

theorem hexadecimal_literalWord {wanted : Nat → Bool} (least : wanted 0 = false)
    (word : List Char) : Hexadecimal (runWord? afterHexMark? isHexDigit wanted word) := by
  intro operand matched
  obtain ⟨w, found⟩ := Option.isSome_iff_exists.mp matched
  obtain ⟨digits, marked, fits, all, -⟩ := runWord?_eq_some.mp found
  have some : digits ≠ [] := by
    rintro rfl
    rw [List.length_nil, least] at fits
    cases fits
  rcases afterHexMark?_eq_some.mp marked with rfl | rfl
  · exact ⟨'x', digits, rfl, .inl rfl, some, all⟩
  · exact ⟨'X', digits, rfl, .inr rfl, some, all⟩

theorem highWord_eq {letter : Char} {digits : List Char} (all : digits.all isHexDigit = true) :
    runWord? highMark.isPrefixOf? isHexDigit (1 ≤ ·) "IMM".toList ('0' :: letter :: digits) =
      if letter = 'x' ∧ "ffff".toList <+: digits ∧ 5 ≤ digits.length then some "IMM".toList
      else none := by
  split
  · rename_i high
    obtain ⟨rfl, ⟨run, rfl⟩, long⟩ := high
    rw [List.all_append, Bool.and_eq_true] at all
    rw [List.length_append] at long
    change 5 ≤ 4 + run.length at long
    refine runWord?_eq_some.mpr
      ⟨run, List.isPrefixOf?_eq_some_iff_append_eq.mpr rfl, ?_, all.2, rfl⟩
    exact decide_eq_true (by omega)
  · rename_i other
    rw [Option.eq_none_iff_forall_ne_some]
    intro w found
    obtain ⟨run, marked, some, -, -⟩ := runWord?_eq_some.mp found
    have shape := List.isPrefixOf?_eq_some_iff_append_eq.mp marked
    obtain ⟨rfl, rfl⟩ : 'x' = letter ∧ "ffff".toList ++ run = digits := by
      simpa [highMark] using shape
    refine other ⟨rfl, List.prefix_append _ _, ?_⟩
    have some := of_decide_eq_true some
    rw [List.length_append]
    change 5 ≤ 4 + run.length
    omega

theorem literalWord_eq {letter : Char} {digits : List Char} (marked : letter = 'x' ∨ letter = 'X')
    (all : digits.all isHexDigit = true) (wanted : Nat → Bool) (word : List Char) :
    runWord? afterHexMark? isHexDigit wanted word ('0' :: letter :: digits) =
      if wanted digits.length then some word else none := by
  have behind : afterHexMark? ('0' :: letter :: digits) = some digits := by
    rcases marked with rfl | rfl <;> rfl
  unfold runWord?
  rw [behind, Option.bind_some, all, Bool.and_true]

theorem rewriteEnd_highWord {operand before digits : List Char} {letter : Char}
    (ends : hexEnd? operand = some (before, letter, digits)) :
    rewriteEnd (runWord? highMark.isPrefixOf? isHexDigit (1 ≤ ·) "IMM".toList) operand =
      if letter = 'x' ∧ "ffff".toList <+: digits ∧ 5 ≤ digits.length then before ++ "IMM".toList
      else operand := by
  obtain ⟨-, -, -, all⟩ := hexEnd?_eq_some.mp ends
  rw [hexadecimal_highWord.rewriteEnd_of_some ends, highWord_eq all]
  split <;> rfl

theorem rewriteEnd_literalWord {operand before digits : List Char} {letter : Char}
    (ends : hexEnd? operand = some (before, letter, digits)) {wanted : Nat → Bool}
    (least : wanted 0 = false) (word : List Char) :
    rewriteEnd (runWord? afterHexMark? isHexDigit wanted word) operand =
      if wanted digits.length then before ++ word else operand := by
  obtain ⟨-, marked, -, all⟩ := hexEnd?_eq_some.mp ends
  rw [(hexadecimal_literalWord least word).rewriteEnd_of_some ends, literalWord_eq marked all]
  split <;> rfl

/-- The last rule takes all decimal digits at the end of an operand, if they are enough. -/
theorem rewriteEnd_decimal (word operand : List Char) :
    rewriteEnd (runWord? some isDigit (4 ≤ ·) word) operand =
      if 4 ≤ (decimalEnd operand).length then operand.rdropWhile isDigit ++ word
      else operand := by
  have bounded : ∀ t, t <:+ operand → (runWord? some isDigit (4 ≤ ·) word t).isSome = true →
      4 ≤ t.length ∧ t.length ≤ (decimalEnd operand).length := by
    intro t behind matched
    obtain ⟨w, found⟩ := Option.isSome_iff_exists.mp matched
    obtain ⟨run, same, long, all, -⟩ := runWord?_eq_some.mp found
    cases same
    exact ⟨of_decide_eq_true long, length_le_rtakeWhile behind all⟩
  split
  · rename_i long
    have whole : operand.rdropWhile isDigit ++ decimalEnd operand = operand :=
      List.rdropWhile_append_rtakeWhile
    have found : runWord? some isDigit (4 ≤ ·) word (decimalEnd operand) = some word :=
      runWord?_eq_some.mpr ⟨_, rfl, decide_eq_true long,
        List.all_eq_true.mpr fun c => List.mem_rtakeWhile_imp, rfl⟩
    conv_lhs => rw [← whole]
    exact rewriteEnd_append found fun t behind matched => (bounded t (whole ▸ behind) matched).2
  · rename_i short
    refine rewriteEnd_eq_self fun t behind => ?_
    rw [← Option.not_isSome_iff_eq_none]
    intro matched
    exact short ((bounded t behind matched).1.trans (bounded t behind matched).2)

theorem rewriteEnd_decimal_of_nil {word operand : List Char} (none : decimalEnd operand = []) :
    rewriteEnd (runWord? some isDigit (4 ≤ ·) word) operand = operand := by
  rw [rewriteEnd_decimal, none]
  rfl

def esilWords (kind : String) : List (List Char → Option (List Char)) :=
  [runWord? highMark.isPrefixOf? isHexDigit (1 ≤ ·) "IMM".toList,
    runWord? afterHexMark? isHexDigit (fun n => 1 ≤ n && (some 3).all (n ≤ ·)) "IMM".toList,
    runWord? afterHexMark? isHexDigit (fun n => 4 ≤ n && Option.all (n ≤ ·) none) "MEM".toList,
    runWord? some isDigit (4 ≤ ·) (decimalWord kind).toList]

theorem esilRules_endsAt (kind : String) :
    List.Forall₂ (EndsAt ',') (esilWords kind) (esilRules kind) := by
  unfold esilWords esilRules
  rw [highOperandRule_eq, closedLiteral_eq, closedLiteral_eq, decimalRule_eq]
  exact .cons (runRule_endsAt (highMark_fits (by decide)) rfl) <|
    .cons (runRule_endsAt (afterHexMark?_fits (by decide)) rfl) <|
    .cons (runRule_endsAt (afterHexMark?_fits (by decide)) rfl) <|
    .cons (runRule_endsAt noMark_fits rfl) .nil

theorem not_mem_decimalWord (kind : String) : ',' ∉ (decimalWord kind).toList := by
  unfold decimalWord
  split <;> decide

theorem not_mem_esilWords (kind : String) :
    ∀ word? ∈ esilWords kind, ∀ t w, word? t = some w → ',' ∉ w := by
  simp only [esilWords, List.forall_mem_cons, runWord?_eq_some]
  grind [not_mem_decimalWord]

/-- No rule touches a word that stands at the end. -/
theorem rewriteEnd_word (kind : String) (before : List Char) (word : String)
    (member : word ∈ ["IMM", "MEM", "FUNC", "DATA"]) :
    ∀ word? ∈ esilWords kind, rewriteEnd word? (before ++ word.toList) = before ++ word.toList := by
  obtain ⟨hex, decimal⟩ := noLiteral_word before word member
  simp only [esilWords, List.forall_mem_cons]
  exact ⟨hexadecimal_highWord.rewriteEnd_of_none hex,
    (hexadecimal_literalWord rfl _).rewriteEnd_of_none hex,
    (hexadecimal_literalWord rfl _).rewriteEnd_of_none hex,
    rewriteEnd_decimal_of_nil decimal, List.forall_mem_nil _⟩

/-- The rules one after the other do to an operand what one look at it does. -/
theorem rewriteEnd_rules (kind : String) (operand : List Char) :
    (esilWords kind).foldl (fun piece word? => rewriteEnd word? piece) operand =
      rewriteOperand kind operand := by
  cases ends : hexEnd? operand with
  | none =>
      simp only [esilWords, List.foldl_cons, List.foldl_nil]
      rw [hexadecimal_highWord.rewriteEnd_of_none ends,
        (hexadecimal_literalWord rfl _).rewriteEnd_of_none ends,
        (hexadecimal_literalWord rfl _).rewriteEnd_of_none ends, rewriteEnd_decimal,
        rewriteOperand_of_none ends]
  | some found =>
      obtain ⟨before, letter, digits⟩ := found
      obtain ⟨-, -, some, -⟩ := hexEnd?_eq_some.mp ends
      have least : 1 ≤ digits.length := List.length_pos_of_ne_nil some
      have immediate := rewriteEnd_word kind before "IMM" (by decide)
      have address := rewriteEnd_word kind before "MEM" (by decide)
      simp only [esilWords, List.forall_mem_cons] at immediate address
      obtain ⟨-, short, long, decimal, -⟩ := immediate
      obtain ⟨-, -, -, settled, -⟩ := address
      simp only [esilWords, List.foldl_cons, List.foldl_nil]
      rw [rewriteOperand_of_some ends, rewriteEnd_highWord ends, hexWord]
      by_cases ones : letter = 'x' ∧ "ffff".toList <+: digits ∧ 5 ≤ digits.length
      · rw [if_pos ones, if_pos ones, short, long, decimal]
      rw [if_neg ones, if_neg ones, rewriteEnd_literalWord ends rfl]
      by_cases few : digits.length ≤ 3
      · have wanted : (decide (1 ≤ digits.length) &&
            (Option.some 3).all (digits.length ≤ ·)) = true := by
          simp [least, few]
        rw [if_pos wanted, if_pos few, long, decimal]
      · have unwanted : (decide (1 ≤ digits.length) &&
            (Option.some 3).all (digits.length ≤ ·)) ≠ true := by
          simp [few]
        have wanted :
            (decide (4 ≤ digits.length) && Option.all (digits.length ≤ ·) none) = true := by
          simp
          omega
        rw [if_neg unwanted, if_neg few, rewriteEnd_literalWord ends rfl, if_pos wanted, settled]

/-! ## Whole expressions -/

theorem normalizeExpression_eq (kind : String) (s : List Char) :
    normalizeExpression kind s =
      join [','] (mapClosed (rewriteOperand kind) (split ',' s)) := by
  unfold normalizeExpression
  rw [substituteAll_endsAt (esilRules_endsAt kind) (not_mem_esilWords kind),
    mapClosed_congr fun operand _ => rewriteEnd_rules kind operand]

theorem hexWord_mem (letter : Char) (digits : List Char) :
    hexWord letter digits ∈ ["IMM", "MEM", "FUNC", "DATA"] := by
  unfold hexWord
  split
  · decide
  · split <;> decide

theorem decimalWord_mem (kind : String) :
    decimalWord kind ∈ ["IMM", "MEM", "FUNC", "DATA"] := by
  unfold decimalWord
  split <;> decide

theorem not_mem_rewriteOperand {kind : String} {operand : List Char} (plain : ',' ∉ operand) :
    ',' ∉ rewriteOperand kind operand := by
  rw [← rewriteEnd_rules]
  have words := not_mem_esilWords kind
  generalize esilWords kind = rules at words
  induction rules generalizing operand with
  | nil => exact plain
  | cons word? rest ih =>
      exact ih (not_mem_rewriteEnd (words word? List.mem_cons_self) plain)
        fun other member => words other (.tail _ member)

/-- An operand that is rewritten ends in no literal. -/
theorem not_endsInLiteral_rewriteOperand (kind : String) (operand : List Char) :
    ¬ EndsInLiteral (rewriteOperand kind operand) := by
  have word_ends {before : List Char} {word : String}
      (member : word ∈ ["IMM", "MEM", "FUNC", "DATA"]) :
      ¬ EndsInLiteral (before ++ word.toList) := by
    obtain ⟨hex, decimal⟩ := noLiteral_word before word member
    simp [EndsInLiteral, hex, decimal]
  cases ends : hexEnd? operand with
  | some found =>
      obtain ⟨before, letter, digits⟩ := found
      rw [rewriteOperand_of_some ends]
      exact word_ends (hexWord_mem letter digits)
  | none =>
      rw [rewriteOperand_of_none ends]
      split
      · exact word_ends (decimalWord_mem kind)
      · rename_i short
        rintro (hex | decimal)
        · rw [ends] at hex
          cases hex
        · exact short decimal

theorem rewriteOperand_of_not_endsInLiteral {kind : String} {operand : List Char}
    (none : ¬ EndsInLiteral operand) : rewriteOperand kind operand = operand := by
  rw [EndsInLiteral, not_or, Option.not_isSome_iff_eq_none] at none
  rw [rewriteOperand_of_none none.1, if_neg none.2]

theorem split_normalizeExpression (kind : String) (s : List Char) :
    split ',' (normalizeExpression kind s) = mapClosed (rewriteOperand kind) (split ',' s) := by
  rw [normalizeExpression_eq]
  exact split_join (mapClosed_ne_nil (split_ne_nil ',' s))
    (not_mem_of_mem_mapClosed (fun piece => not_mem_of_mem_split)
      fun piece => not_mem_rewriteOperand)

theorem normalizeExpression_normalizeExpression (kind : String) (s : List Char) :
    normalizeExpression kind (normalizeExpression kind s) = normalizeExpression kind s := by
  conv_lhs => rw [normalizeExpression_eq, split_normalizeExpression, mapClosed_mapClosed]
  rw [normalizeExpression_eq]
  refine congrArg _ (mapClosed_congr fun operand _ => ?_)
  exact rewriteOperand_of_not_endsInLiteral (not_endsInLiteral_rewriteOperand kind operand)

/-- Without a comma nothing is looked at. -/
theorem normalizeExpression_of_not_mem {kind : String} {s : List Char} (plain : ',' ∉ s) :
    normalizeExpression kind s = s := by
  rw [normalizeExpression_eq, split_of_not_mem plain, mapClosed, join_singleton]

theorem not_mem_maskOperand {token : List Char} (plain : ',' ∉ token) :
    ',' ∉ maskOperand token := by
  rcases maskOperand_cases token with mask | mask | same
  · rw [mask]; decide
  · rw [mask]; decide
  · rwa [same]

/-- A line of masked operands is, as one operand, none to mask. -/
theorem maskOperand_join (operands : List (List Char)) :
    maskOperand (join [' '] (operands.map maskOperand)) =
      join [' '] (operands.map maskOperand) := by
  rcases operands with _ | ⟨operand, _ | ⟨next, rest⟩⟩
  · exact maskOperand_of_not_mem (by decide +kernel)
  · rw [List.map_singleton, join_singleton, maskOperand_maskOperand]
  · refine maskOperand_of_not_mem (not_mem_of_not_plain (c := ' ') ?_ rfl)
    rw [List.map_cons, List.map_cons, join_cons_cons]
    simp

/-- A second pass, with or without masks, changes nothing. -/
theorem normalizeEsil_again (text kind : String) (maskRegisters : Bool) :
    normalizeEsil (normalizeEsil text kind maskRegisters) kind maskRegisters =
      normalizeEsil text kind maskRegisters := by
  cases maskRegisters with
  | false =>
      refine congrArg String.ofList ?_
      change normalizeExpression kind
        (String.ofList (normalizeExpression kind text.toList)).toList =
          normalizeExpression kind text.toList
      rw [String.toList_ofList, normalizeExpression_normalizeExpression]
  | true =>
      have masked (s : String) : normalizeEsil s kind true = String.ofList
        (join [' '] ((tokens ',' (normalizeExpression kind s.toList)).map maskOperand)) := rfl
      rw [masked, masked, String.toList_ofList]
      let operands := tokens ',' (normalizeExpression kind text.toList)
      let line := join [' '] (operands.map maskOperand)
      have plain : ',' ∉ line := by
        refine not_mem_join (by decide) fun piece member => ?_
        obtain ⟨operand, found, rfl⟩ := List.mem_map.mp member
        exact not_mem_maskOperand (not_mem_of_mem_split (List.mem_of_mem_filter found))
      change String.ofList
        (join [' '] ((tokens ',' (normalizeExpression kind line)).map maskOperand)) =
          String.ofList line
      rw [normalizeExpression_of_not_mem plain]
      by_cases empty : line = []
      · rw [empty]
        rfl
      · rw [tokens, filter_split_of_not_mem plain empty, List.map_singleton, join_singleton,
          maskOperand_join operands]

end FlowCorpus.Assembly
