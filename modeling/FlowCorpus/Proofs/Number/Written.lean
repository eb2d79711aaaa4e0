import FlowCorpus.Proofs.Number.Digits

/-!
# Written integers

An integer is written in base ten or behind the mark of another base, with a sign or without one,
and with single low lines between its digits. With blanks around it such a text is read as this
integer, or not at all when it has more decimal digits than the limit.
-/

set_option autoImplicit false

namespace FlowCorpus.Number

open FlowCorpus.Text

/-! ## Digits in a base -/

/-- A text of digits in a base, with single low lines between them, and the number it is worth. -/
inductive Numeral (base : Nat) : Nat → List Char → Prop where
  | digit {c : Char} {d : Nat} :
      digitValue? c = some d → d < base → Numeral base d [c]
  | next {n : Nat} {s : List Char} {c : Char} {d : Nat} :
      Numeral base n s → digitValue? c = some d → d < base → Numeral base (n * base + d) (s ++ [c])
  | spaced {n : Nat} {s : List Char} {c : Char} {d : Nat} :
      Numeral base n s → digitValue? c = some d → d < base →
        Numeral base (n * base + d) (s ++ ['_', c])

section

variable {base value count : Nat} {afterDigit : Bool} {c : Char} {s : List Char}

theorem digitsFrom_digit {d : Nat} (worth : digitValue? c = some d) (below : d < base) :
    digitsFrom base value count afterDigit (c :: s) =
      digitsFrom base (value * base + d) (count + 1) true s := by
  have other : c ≠ '_' := by
    rintro rfl
    cases worth
  simp only [digitsFrom, if_neg other, worth, if_pos below]

theorem digitsFrom_lowLine :
    digitsFrom base value count true ('_' :: s) = digitsFrom base value count false s := rfl

/-- The first character of what is read is a low line behind a digit, or a digit of the base. -/
theorem digitsFrom_cons {result : Nat × Nat}
    (read : digitsFrom base value count afterDigit (c :: s) = some result) :
    (c = '_' ∧ afterDigit = true ∧ digitsFrom base value count false s = some result) ∨
      ∃ d, digitValue? c = some d ∧ d < base ∧
        digitsFrom base (value * base + d) (count + 1) true s = some result := by
  rw [digitsFrom] at read
  split at read
  · split at read
    · exact .inl ⟨by assumption, by assumption, read⟩
    · cases read
  · split at read
    · split at read
      · exact .inr ⟨_, by assumption, by assumption, read⟩
      · cases read
    · cases read

/-- A text that was read to its end is read on from there. -/
theorem digitsFrom_append {n k : Nat}
    (read : digitsFrom base value count afterDigit s = some (n, k)) (t : List Char) :
    digitsFrom base value count afterDigit (s ++ t) = digitsFrom base n k true t := by
  induction s generalizing value count afterDigit with
  | nil =>
      cases afterDigit with
      | true =>
          cases read
          rfl
      | false => cases read
  | cons c s ih =>
      rw [List.cons_append]
      rcases digitsFrom_cons read with ⟨rfl, rfl, read⟩ | ⟨d, worth, below, read⟩
      · rw [digitsFrom_lowLine, ih read]
      · rw [digitsFrom_digit worth below, ih read]

def isDigitOrLine (c : Char) : Bool :=
  c == '_' || (digitValue? c).isSome

theorem all_digitsFrom {result : Nat × Nat}
    (read : digitsFrom base value count afterDigit s = some result) :
    s.all isDigitOrLine = true := by
  induction s generalizing value count afterDigit with
  | nil => rfl
  | cons c s ih =>
      rw [List.all_cons, Bool.and_eq_true]
      rcases digitsFrom_cons read with ⟨rfl, -, read⟩ | ⟨d, worth, -, read⟩
      · exact ⟨rfl, ih read⟩
      · exact ⟨by simp [isDigitOrLine, worth], ih read⟩

end

theorem eq_zero_of_digitValue? {c : Char} (worth : digitValue? c = some 0) : c = '0' := by
  apply Char.toNat_inj.mp
  unfold digitValue? at worth
  dsimp only at worth
  grind

/-- One digit more: there are no more digits than the number needs if there were no more before. -/
theorem power_le_next {base n count : Nat} (before : base ^ count ≤ n * base) (d : Nat) :
    base ^ (count + 1) ≤ (n * base + d) * base :=
  calc base ^ (count + 1)
      = base ^ count * base := pow_succ base count
    _ ≤ n * base * base := Nat.mul_le_mul_right base before
    _ ≤ (n * base + d) * base := Nat.mul_le_mul_right base (Nat.le_add_right _ d)

theorem head?_ne_of_append {s t : List Char} {c : Char} (front : (s ++ t).head? ≠ some c) :
    s.head? ≠ some c := by
  intro first
  apply front
  rw [List.head?_append, first]
  rfl

namespace Numeral

/-- The digits are read as their number. Without a zero in front there are no more of them than
the number needs. -/
theorem digits? {base n : Nat} {s : List Char} (numeral : Numeral base n s) :
    ∃ count, digits? base s = some (n, count) ∧
      (s.head? ≠ some '0' → base ^ count ≤ n * base) := by
  induction numeral with
  | @digit c d worth below =>
      refine ⟨1, ?_, ?_⟩
      · rw [Number.digits?, digitsFrom_digit worth below, Nat.zero_mul, Nat.zero_add]
        rfl
      · intro front
        have positive : 0 < d := by
          apply Nat.pos_of_ne_zero
          rintro rfl
          exact front (congrArg some (eq_zero_of_digitValue? worth))
        rw [pow_one]
        exact Nat.le_mul_of_pos_left base positive
  | next _ worth below ih =>
      obtain ⟨count, read, small⟩ := ih
      refine ⟨count + 1, ?_, ?_⟩
      · rw [Number.digits?, digitsFrom_append read, digitsFrom_digit worth below]
        rfl
      · intro front
        exact power_le_next (small (head?_ne_of_append front)) _
  | spaced _ worth below ih =>
      obtain ⟨count, read, small⟩ := ih
      refine ⟨count + 1, ?_, ?_⟩
      · rw [Number.digits?, digitsFrom_append read, digitsFrom_lowLine,
          digitsFrom_digit worth below]
        rfl
      · intro front
        exact power_le_next (small (head?_ne_of_append front)) _

theorem all {base n : Nat} {s : List Char} (numeral : Numeral base n s) :
    s.all isDigitOrLine = true := by
  obtain ⟨count, read, -⟩ := numeral.digits?
  exact all_digitsFrom read

end Numeral

theorem digitValue?_lowerAscii (c : Char) : digitValue? (lowerAscii c) = digitValue? c := by
  unfold lowerAscii
  split
  · rename_i capital
    simp only [Bool.and_eq_true, decide_eq_true_eq] at capital
    have valid : (c.toNat + 0x20).isValidChar := by
      left
      omega
    unfold digitValue?
    rw [Char.toNat_ofNat, if_pos valid]
    grind
  · rfl

theorem digitValue?_digitChar {d : Nat} (below : d < 16) : digitValue? d.digitChar = some d := by
  interval_cases d <;> rfl

/-- The digits of a number in a base, with letters in either case, are worth this number. -/
theorem numeral_toDigits {base : Nat} (least : 2 ≤ base) (greatest : base ≤ 16) (n : Nat)
    {s : List Char} (written : s.map lowerAscii = Nat.toDigits base n) : Numeral base n s := by
  have worth {c : Char} {d : Nat} (same : lowerAscii c = d.digitChar) (below : d < base) :
      digitValue? c = some d := by
    rw [← digitValue?_lowerAscii, same, digitValue?_digitChar (below.trans_le greatest)]
  -- The last digit is taken off, so the induction is on the number, not on its text.
  induction n using Nat.strong_induction_on generalizing s with
  | _ n ih =>
      rcases Nat.lt_or_ge n base with below | more
      · rw [Nat.toDigits_of_lt_base below] at written
        obtain ⟨c, rfl, same⟩ := List.map_eq_singleton_iff.mp written
        exact .digit (worth same below) below
      · rw [Nat.toDigits_of_base_le least more] at written
        obtain ⟨front, last, rfl, rest, same⟩ := List.map_eq_append_iff.mp written
        obtain ⟨c, rfl, equal⟩ := List.map_eq_singleton_iff.mp same
        have below : n % base < base := Nat.mod_lt n (by omega)
        have fewer : n / base < n := Nat.div_lt_self (by omega) least
        have shorter := ih (n / base) fewer rest
        have whole := Numeral.next shorter (worth equal below) below
        rwa [Nat.div_add_mod'] at whole

/-! ## Whole integers -/

/-- A natural number as it is written: in base ten, without zeros in front, or behind the mark of
its base, which a low line may follow. -/
inductive Written (n : Nat) : List Char → Prop where
  | decimal {s : List Char} :
      Numeral 10 n s → (s.head? = some '0' → s = ['0']) → Written n s
  | marked {mark : Char} {base : Nat} {s : List Char} :
      baseOf? mark = some base → Numeral base n s → Written n ('0' :: mark :: s)
  | apart {mark : Char} {base : Nat} {s : List Char} :
      baseOf? mark = some base → Numeral base n s → Written n ('0' :: mark :: '_' :: s)

/-- An integer as it is written: a natural number, or one behind a sign. -/
inductive WrittenInt : Int → List Char → Prop where
  | plain {n : Nat} {s : List Char} : Written n s → WrittenInt n s
  | positive {n : Nat} {s : List Char} : Written n s → WrittenInt n ('+' :: s)
  | negative {n : Nat} {s : List Char} : Written n s → WrittenInt (-n) ('-' :: s)

theorem baseOf?_bounds {mark : Char} {base : Nat} (marks : baseOf? mark = some base) :
    isDigitOrLine mark = true ∧ 2 ≤ base ∧ base ≤ 16 := by
  unfold baseOf? at marks
  split at marks
  all_goals cases marks
  all_goals decide

/-- Every number is written in its decimal digits. -/
theorem written_natDigits (n : Nat) : Written n (natDigits n) := by
  apply Written.decimal
  · apply numeral_toDigits (by decide) (by decide)
    refine (List.map_congr_left ?_).trans (List.map_id _)
    intro c member
    have digit := allDigits_natDigits n c member
    unfold isDigit at digit
    unfold lowerAscii
    grind
  · intro zero
    rcases Nat.eq_zero_or_pos n with rfl | positive
    · rfl
    · exact absurd zero (head?_natDigits positive)

/-- Every number is written in the digits of a base behind its mark, letters in either case. -/
theorem written_marked {mark : Char} {base : Nat} (marks : baseOf? mark = some base) {n : Nat}
    {s : List Char} (digits : s.map lowerAscii = Nat.toDigits base n) :
    Written n ('0' :: mark :: s) := by
  obtain ⟨-, least, greatest⟩ := baseOf?_bounds marks
  exact .marked marks (numeral_toDigits least greatest n digits)

theorem basedNat?_of_head {s : List Char} (front : s.head? ≠ some '0') :
    basedNat? s = decimal? s := by
  unfold basedNat?
  split
  · exact absurd rfl front
  · rfl

theorem basedNat?_marked {mark : Char} {base : Nat} (marks : baseOf? mark = some base)
    (s : List Char) :
    basedNat? ('0' :: mark :: s) = (digits? base (skipLowLine s)).map Prod.fst := by
  simp only [basedNat?, marks]

/-- Decimal digits without a zero in front are read unless they are more than the limit, and then
the number is large. -/
theorem Numeral.decimal? {n : Nat} {s : List Char} (numeral : Numeral 10 n s)
    (front : s.head? ≠ some '0') :
    decimal? s = some n ∨ (decimal? s = none ∧ 10 ^ digitLimit ≤ n) := by
  obtain ⟨count, read, small⟩ := numeral.digits?
  have least : 10 ^ count ≤ n * 10 := small front
  unfold Number.decimal?
  simp only [read]
  -- More digits than the limit are too many for a number below this power.
  rcases Nat.lt_or_ge digitLimit count with more | within
  · right
    refine ⟨if_neg (by omega), ?_⟩
    apply Nat.le_of_mul_le_mul_right _ (show 0 < 10 by decide)
    calc 10 ^ digitLimit * 10
        = 10 ^ (digitLimit + 1) := (pow_succ 10 digitLimit).symm
      _ ≤ 10 ^ count := Nat.pow_le_pow_right (by decide) more
      _ ≤ n * 10 := least
  · exact .inl (if_pos within)

theorem Numeral.skipLowLine {base n : Nat} {s : List Char} (numeral : Numeral base n s) :
    skipLowLine s = s := by
  obtain ⟨count, read, -⟩ := numeral.digits?
  unfold Number.skipLowLine
  split
  · cases read
  · rfl

namespace Written

variable {n : Nat} {s : List Char}

theorem basedNat? (written : Written n s) :
    basedNat? s = some n ∨ (basedNat? s = none ∧ 10 ^ digitLimit ≤ n) := by
  cases written with
  | decimal numeral zero =>
      by_cases front : s.head? = some '0'
      · obtain rfl := zero front
        obtain ⟨count, read, -⟩ := numeral.digits?
        cases read
        exact .inl rfl
      · rw [basedNat?_of_head front]
        exact numeral.decimal? front
  | marked marks numeral =>
      obtain ⟨count, read, -⟩ := numeral.digits?
      left
      rw [basedNat?_marked marks, numeral.skipLowLine, read]
      rfl
  | apart marks numeral =>
      obtain ⟨count, read, -⟩ := numeral.digits?
      left
      rw [basedNat?_marked marks]
      exact congrArg (Option.map Prod.fst) read

theorem all (written : Written n s) : s.all isDigitOrLine = true := by
  cases written with
  | decimal numeral _ => exact numeral.all
  | marked marks numeral =>
      rw [List.all_cons, List.all_cons, (baseOf?_bounds marks).1, numeral.all]
      rfl
  | apart marks numeral =>
      rw [List.all_cons, List.all_cons, List.all_cons, (baseOf?_bounds marks).1, numeral.all]
      rfl

end Written

/-! ## Blanks around an integer -/

/-- The information separators. They are white space, but may not stand around a number. -/
def separators : List Char :=
  ['\x1c', '\x1d', '\x1e', '\x1f']

def isIntegerChar (c : Char) : Bool :=
  c == '+' || c == '-' || isDigitOrLine c

theorem isIntegerChar_of_isDigitOrLine {c : Char} (inside : isDigitOrLine c = true) :
    isIntegerChar c = true := by
  simp [isIntegerChar, inside]

theorem Written.forall_mem {n : Nat} {s : List Char} (written : Written n s) :
    ∀ c ∈ s, isDigitOrLine c = true :=
  List.all_eq_true.mp written.all

theorem WrittenInt.forall_mem {n : Int} {s : List Char} (written : WrittenInt n s) :
    ∀ c ∈ s, isIntegerChar c = true := by
  cases written with
  | plain unsigned =>
      intro c member
      exact isIntegerChar_of_isDigitOrLine (unsigned.forall_mem c member)
  | positive unsigned | negative unsigned =>
      intro c member
      rcases List.mem_cons.mp member with rfl | member
      · rfl
      · exact isIntegerChar_of_isDigitOrLine (unsigned.forall_mem c member)

theorem asciiForm_of_isIntegerChar {c : Char} (inside : isIntegerChar c = true) :
    asciiForm c = c ∧ isAsciiBlank c = false := by
  have kinds : (c = '+' ∨ c = '-') ∨ c = '_' ∨ (digitValue? c).isSome = true := by
    simpa [isIntegerChar, isDigitOrLine] using inside
  rcases kinds with (rfl | rfl) | rfl | digit
  · decide
  · decide
  · decide
  · unfold digitValue? at digit
    unfold asciiForm isAsciiBlank
    grind

theorem asciiForm_of_separator {c : Char} (separator : c ∈ separators) :
    asciiForm c = c ∧ isAsciiBlank c = false ∧ isIntegerChar c = false := by
  have all : separators.all
      (fun c => asciiForm c == c && !isAsciiBlank c && !isIntegerChar c) = true := by decide
  simpa [and_assoc] using List.all_eq_true.mp all c separator

theorem isAsciiBlank_asciiForm {c : Char} (blank : isBlank c = true)
    (other : c ∉ separators) : isAsciiBlank (asciiForm c) = true := by
  have apart : ∀ d ∈ separators, c.toNat ≠ d.toNat := by
    intro d separator same
    exact other (Char.toNat_inj.mp same ▸ separator)
  simp only [separators, List.forall_mem_cons] at apart
  unfold asciiForm
  split
  · unfold isBlank at blank
    unfold isAsciiBlank
    grind
  · rfl

section

variable {drop : Char → Bool} {before s after : List Char}

theorem dropWhile_run (front : ∀ c ∈ before, drop c = true)
    (stays : ∀ c ∈ s.head?, drop c = false) : (before ++ s).dropWhile drop = s := by
  rw [List.dropWhile_append_of_pos front]
  cases s with
  | nil => rfl
  | cons c s => exact List.dropWhile_cons_of_neg (by simp [stays c rfl])

theorem trimOf_surrounded (around : ∀ c ∈ before ++ after, drop c = true)
    (inside : ∀ c ∈ s, drop c = false) (some : s ≠ []) :
    trimOf drop (before ++ s ++ after) = s := by
  obtain ⟨front, back⟩ := List.forall_mem_append.mp around
  have start : (before ++ (s ++ after)).dropWhile drop = s ++ after := by
    apply dropWhile_run front
    intro c first
    rw [List.head?_append_of_ne_nil s some] at first
    exact inside c (List.mem_of_mem_head? first)
  have ending : (after.reverse ++ s.reverse).dropWhile drop = s.reverse := by
    apply dropWhile_run
    · intro c member
      exact back c (List.mem_reverse.mp member)
    · intro c last
      exact inside c (List.mem_reverse.mp (List.mem_of_mem_head? last))
  unfold trimOf
  rw [List.append_assoc, start, List.reverse_append, ending, List.reverse_reverse]

theorem mem_dropWhile_of_not {c : Char} (member : c ∈ s) (stays : drop c = false) :
    c ∈ s.dropWhile drop := by
  rw [← List.takeWhile_append_dropWhile (p := drop) (l := s)] at member
  rcases List.mem_append.mp member with front | rest
  · have dropped : drop c = true := List.mem_takeWhile_imp front
    rw [stays] at dropped
    cases dropped
  · exact rest

theorem mem_trimOf_of_not {c : Char} (member : c ∈ s) (stays : drop c = false) :
    c ∈ trimOf drop s := by
  unfold trimOf
  rw [List.mem_reverse]
  apply mem_dropWhile_of_not _ stays
  rw [List.mem_reverse]
  exact mem_dropWhile_of_not member stays

end

/-- The blanks around an integer are left out, if none of them is a separator. -/
theorem numeralBody_surrounded {before s after : List Char}
    (blanks : ∀ c ∈ before ++ after, isBlank c = true ∧ c ∉ separators)
    (inside : ∀ c ∈ s, isIntegerChar c = true) (some : s ≠ []) :
    numeralBody (before ++ s ++ after) = s := by
  have same : s.map asciiForm = s := by
    refine (List.map_congr_left ?_).trans (List.map_id s)
    intro c member
    exact (asciiForm_of_isIntegerChar (inside c member)).1
  unfold numeralBody
  rw [List.map_append, List.map_append, same]
  apply trimOf_surrounded
  · rw [← List.map_append]
    intro d member
    obtain ⟨c, listed, rfl⟩ := List.mem_map.mp member
    obtain ⟨blank, other⟩ := blanks c listed
    exact isAsciiBlank_asciiForm blank other
  · intro c member
    exact (asciiForm_of_isIntegerChar (inside c member)).2
  · exact some

theorem mem_numeralBody_of_separator {s : List Char} {c : Char} (member : c ∈ s)
    (separator : c ∈ separators) : c ∈ numeralBody s := by
  obtain ⟨same, stays, -⟩ := asciiForm_of_separator separator
  apply mem_trimOf_of_not _ stays
  rw [List.mem_map]
  exact ⟨c, member, same⟩

theorem forall_mem_of_decimal? {s : List Char} {n : Nat} (read : decimal? s = some n) :
    ∀ c ∈ s, isDigitOrLine c = true := by
  rw [← List.all_eq_true]
  unfold decimal? at read
  split at read
  · rename_i found
    exact all_digitsFrom found
  · cases read

theorem mem_skipLowLine {s : List Char} {c : Char} (member : c ∈ s) :
    c = '_' ∨ c ∈ skipLowLine s := by
  unfold skipLowLine
  split
  · exact List.mem_cons.mp member
  · exact .inr member

theorem forall_mem_of_basedNat? {s : List Char} {n : Nat} (read : basedNat? s = some n) :
    ∀ c ∈ s, isDigitOrLine c = true := by
  unfold basedNat? at read
  split at read
  · rename_i mark rest
    split at read
    · rename_i base marks
      obtain ⟨result, found, -⟩ := Option.map_eq_some_iff.mp read
      have digits := List.all_eq_true.mp (all_digitsFrom found)
      rw [List.forall_mem_cons, List.forall_mem_cons]
      refine ⟨rfl, (baseOf?_bounds marks).1, ?_⟩
      intro c member
      rcases mem_skipLowLine member with rfl | member
      · rfl
      · exact digits c member
    · exact forall_mem_of_decimal? (Option.filter_eq_some_iff.mp read).1
  · exact forall_mem_of_decimal? read

theorem readBasedInt?_eq (s : List Char) :
    readBasedInt? s = (basedNat? (takeSign (numeralBody s)).2).map
      (withSign (takeSign (numeralBody s)).1) := rfl

theorem mem_takeSign {s : List Char} {c : Char} (member : c ∈ s) :
    c = '-' ∨ c = '+' ∨ c ∈ (takeSign s).2 := by
  unfold takeSign
  split
  · exact (List.mem_cons.mp member).imp_right .inr
  · exact .inr (List.mem_cons.mp member)
  · exact .inr (.inr member)

/-- A text with a separator is no number. -/
theorem readBasedInt?_of_separator {s : List Char} {c : Char} (member : c ∈ s)
    (separator : c ∈ separators) : readBasedInt? s = none := by
  obtain ⟨-, -, outside⟩ := asciiForm_of_separator separator
  cases read : readBasedInt? s with
  | none => rfl
  | some n =>
      -- Trimming leaves the separator, which is then a sign or one of the digits that were read.
      rw [readBasedInt?_eq] at read
      obtain ⟨m, found, -⟩ := Option.map_eq_some_iff.mp read
      have inside : isIntegerChar c = true := by
        rcases mem_takeSign (mem_numeralBody_of_separator member separator) with
          rfl | rfl | digits
        · rfl
        · rfl
        · exact isIntegerChar_of_isDigitOrLine (forall_mem_of_basedNat? found c digits)
      rw [outside] at inside
      cases inside

theorem takeSign_of_digits {s : List Char} (digits : ∀ c ∈ s, isDigitOrLine c = true) :
    takeSign s = (false, s) := by
  unfold takeSign
  split
  · exact absurd (digits '-' List.mem_cons_self) (by decide)
  · exact absurd (digits '+' List.mem_cons_self) (by decide)
  · rfl

/-- A written integer is a sign, or none, and a written natural number. -/
theorem WrittenInt.takeSign {n : Int} {s : List Char} (written : WrittenInt n s) :
    ∃ m, Written m (takeSign s).2 ∧ withSign (takeSign s).1 m = n := by
  cases written with
  | @plain m s unsigned =>
      rw [takeSign_of_digits unsigned.forall_mem]
      exact ⟨m, unsigned, rfl⟩
  | positive unsigned => exact ⟨_, unsigned, rfl⟩
  | negative unsigned => exact ⟨_, unsigned, rfl⟩

theorem natAbs_withSign (negative : Bool) (n : Nat) : (withSign negative n).natAbs = n := by
  cases negative with
  | true => exact Int.natAbs_neg n
  | false => rfl

theorem Numeral.ne_nil {base n : Nat} {s : List Char} (numeral : Numeral base n s) : s ≠ [] := by
  cases numeral with
  | digit => exact List.cons_ne_nil _ _
  | next | spaced => exact List.append_ne_nil_of_right_ne_nil _ (List.cons_ne_nil _ _)

theorem WrittenInt.ne_nil {n : Int} {s : List Char} (written : WrittenInt n s) : s ≠ [] := by
  cases written with
  | plain unsigned =>
      cases unsigned with
      | decimal numeral => exact numeral.ne_nil
      | marked | apart => exact List.cons_ne_nil _ _
  | positive | negative => exact List.cons_ne_nil _ _

/-- A written integer with blanks around it is read, unless it has more decimal digits than the
limit, and then it is far from zero. -/
theorem readBasedInt?_written {n : Int} {before s after : List Char}
    (blanks : ∀ c ∈ before ++ after, isBlank c = true ∧ c ∉ separators)
    (written : WrittenInt n s) :
    readBasedInt? (before ++ s ++ after) = some n ∨
      (readBasedInt? (before ++ s ++ after) = none ∧ 10 ^ digitLimit ≤ n.natAbs) := by
  obtain ⟨m, unsigned, rfl⟩ := written.takeSign
  rw [readBasedInt?_eq, numeralBody_surrounded blanks written.forall_mem written.ne_nil,
    natAbs_withSign]
  rcases unsigned.basedNat? with read | ⟨unread, large⟩
  · left
    rw [read]
    rfl
  · right
    rw [unread]
    exact ⟨rfl, large⟩

end FlowCorpus.Number
