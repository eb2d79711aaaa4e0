import FlowCorpus.Assembly.Esil
import FlowCorpus.Proofs.Text.Runs
import FlowCorpus.Proofs.Text.Substitution

/-!
# Literals in front of a separator

The rules for literals in expressions look at what stands before the next comma: each takes the
end of an operand that is a mark and a run of digits up to the comma.
-/

set_option autoImplicit false

namespace FlowCorpus.Assembly

open FlowCorpus.Text

/-! ## A mark and a run -/

/-- What recognises a mark at the start of a text, and returns what comes behind it. -/
abbrev Mark := List Char → Option (List Char)

/-- The mark has as many characters as said, and nothing behind the separator matters to it. -/
structure Mark.Fits (mark? : Mark) (size : Nat) (separator : Char) : Prop where
  length : ∀ {s rest}, mark? s = some rest → rest <:+ s ∧ s.length = size + rest.length
  append : ∀ s rest,
    mark? (s ++ separator :: rest) = (mark? s).map (· ++ separator :: rest)

/-- The word for a mark and a run of characters of a class whose length is as wanted. -/
def runWord? (mark? : Mark) (inClass : Char → Bool) (wanted : Nat → Bool) (word : List Char)
    (operand : List Char) : Option (List Char) :=
  (mark? operand).bind fun run =>
    if wanted run.length && run.all inClass then some word else none

/-- The rule that takes a mark, the run behind it and the separator behind the run. -/
def runRule (mark? : Mark) (size : Nat) (inClass : Char → Bool) (wanted : Nat → Bool)
    (word : List Char) (separator : Char) : Rule := fun s =>
  (mark? s).bind fun rest =>
    if wanted (rest.takeWhile inClass).length &&
        (rest.drop (rest.takeWhile inClass).length).head? == some separator then
      some (size + (rest.takeWhile inClass).length + 1, word ++ [separator])
    else none

variable {mark? : Mark} {size : Nat} {inClass : Char → Bool} {wanted : Nat → Bool}
  {word : List Char} {separator : Char}

theorem runWord?_eq_some {operand w : List Char} :
    runWord? mark? inClass wanted word operand = some w ↔
      ∃ run, mark? operand = some run ∧ wanted run.length = true ∧ run.all inClass = true ∧
        w = word := by
  unfold runWord?
  cases mark? operand with
  | none => simp
  | some run =>
      cases fits : wanted run.length && run.all inClass with
      | false => grind
      | true => grind

theorem runRule_endsAt (fits : Mark.Fits mark? size separator)
    (outside : inClass separator = false) :
    EndsAt separator (runWord? mark? inClass wanted word)
      (runRule mark? size inClass wanted word separator) where
  none_of_not_mem s plain := by
    unfold runRule
    cases found : mark? s with
    | none => rfl
    | some rest =>
        have fresh : separator ∉ rest := fun member =>
          plain ((fits.length found).1.subset member)
        rw [Option.bind_some, run_misses fresh, Bool.and_false]
        rfl
  piece operand rest plain := by
    unfold runRule runWord?
    rw [fits.append]
    cases found : mark? operand with
    | none => rfl
    | some run =>
        have fresh : separator ∉ run := fun member =>
          plain ((fits.length found).1.subset member)
        rw [Option.map_some, Option.bind_some, Option.bind_some, run_meets outside fresh,
          (fits.length found).2]
        cases all : run.all inClass with
        | false => rw [Bool.and_false, Bool.and_false]; rfl
        | true =>
            rw [takeWhile_run all outside, Bool.and_true]
            cases wanted run.length <;> rfl

/-! ## The literals of expressions -/

theorem highMark_fits (apart : separator ∉ highMark) :
    Mark.Fits highMark.isPrefixOf? highMark.length separator where
  length found := by
    obtain rfl := List.isPrefixOf?_eq_some_iff_append_eq.mp found
    exact ⟨List.suffix_append _ _, List.length_append⟩
  append s rest := by
    refine isPrefixOf?_append (fun c first => ?_) s
    cases first
    exact apart

theorem afterHexMark?_eq_some {s rest : List Char} :
    afterHexMark? s = some rest ↔ s = '0' :: 'x' :: rest ∨ s = '0' :: 'X' :: rest := by
  unfold afterHexMark?
  split <;> grind

theorem afterHexMark?_fits (apart : separator ∉ "0xX".toList) :
    Mark.Fits afterHexMark? 2 separator where
  length found := by
    rcases afterHexMark?_eq_some.mp found with rfl | rfl
    · exact ⟨List.suffix_append ['0', 'x'] _, Nat.add_comm _ 2⟩
    · exact ⟨List.suffix_append ['0', 'X'] _, Nat.add_comm _ 2⟩
  append s rest := by
    have signs : separator ≠ '0' ∧ separator ≠ 'x' ∧ separator ≠ 'X' := by simpa using apart
    rcases s with _ | ⟨c, _ | ⟨d, more⟩⟩
    · unfold afterHexMark?
      grind
    · unfold afterHexMark?
      grind
    · unfold afterHexMark?
      grind

theorem noMark_fits : Mark.Fits some 0 ',' where
  length found := by
    cases found
    exact ⟨List.suffix_rfl, (Nat.zero_add _).symm⟩
  append s rest := rfl

theorem highOperandRule_eq :
    highOperandRule =
      runRule highMark.isPrefixOf? highMark.length isHexDigit (1 ≤ ·) "IMM".toList ',' := by
  funext s
  unfold highOperandRule highDigits? runRule hexRun
  cases found : highMark.isPrefixOf? s with
  | none => rfl
  | some rest =>
      have digits : s.drop (highMark.length + (rest.takeWhile isHexDigit).length) =
          rest.drop (rest.takeWhile isHexDigit).length := by
        rw [← List.isPrefixOf?_eq_some_iff_append_eq.mp found, List.drop_append,
          List.drop_eq_nil_of_le (Nat.le_add_right _ _), Nat.add_sub_cancel_left, List.nil_append]
      by_cases some : 1 ≤ (rest.takeWhile isHexDigit).length
      · simp only [if_pos some, digits, Option.bind_some, decide_eq_true some, Bool.true_and]
        rfl
      · simp only [if_neg some, Option.bind_some, decide_eq_false some, Bool.false_and]
        rfl

theorem closedLiteral_eq (least : Nat) (most : Option Nat) (separator : Char) (word : String) :
    closedLiteral least most separator word =
      runRule afterHexMark? 2 isHexDigit (fun n => least ≤ n && most.all (n ≤ ·)) word.toList
        separator := by
  funext s
  unfold closedLiteral runRule hexRun
  cases afterHexMark? s with
  | none => rfl
  | some rest => simp only [Option.bind_some, Nat.add_comm _ 2, Nat.add_assoc]

theorem decimalRule_eq (word : String) :
    decimalRule word = runRule some 0 isDigit (4 ≤ ·) word.toList ',' := by
  funext s
  unfold decimalRule runRule
  rw [Option.bind_some, Nat.zero_add]

end FlowCorpus.Assembly
