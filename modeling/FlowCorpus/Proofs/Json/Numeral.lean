import FlowCorpus.Proofs.Json.Locality
import FlowCorpus.Proofs.Number.Digits
import FlowCorpus.Proofs.Number.Shortest

/-!
# Written numbers are read back

An integer is read back from its text unless it has too many digits. A double is read back from its
shortest digits, whether they are written positionally or with an exponent: the text is worth just
the decimal that was found for the double.
-/

set_option autoImplicit false

namespace FlowCorpus.Json

open FlowCorpus.Number FlowCorpus.Text

/-! ## Parts of a number -/

/-- A text that does not go on with a digit. -/
def NoDigit (rest : List Char) : Prop :=
  ∀ c ∈ rest.head?, isDigit c = false

theorem noDigit_nil : NoDigit [] := by
  simp [NoDigit]

theorem noDigit_cons {c : Char} (other : isDigit c = false) (rest : List Char) :
    NoDigit (c :: rest) := by
  simpa [NoDigit] using other

theorem takeDigits_allDigits {digits rest : List Char} (all : AllDigits digits)
    (ended : NoDigit rest) : takeDigits (digits ++ rest) = (digits, rest) := by
  have stopped : rest.takeWhile isDigit = [] ∧ rest.dropWhile isDigit = rest := by
    cases rest with
    | nil => exact ⟨rfl, rfl⟩
    | cons c rest => simp [ended c rfl]
  unfold takeDigits
  rw [List.takeWhile_append_of_pos all, List.dropWhile_append_of_pos all, stopped.1, stopped.2,
    List.append_nil]

theorem fraction?_point {digits rest : List Char} (all : AllDigits digits) (nonempty : digits ≠ [])
    (ended : NoDigit rest) : fraction? ('.' :: (digits ++ rest)) = some (digits, rest) := by
  simp only [fraction?, takeDigits_allDigits all ended]
  cases digits with
  | nil => exact absurd rfl nonempty
  | cons c digits => rfl

theorem scale?_exponent {negative : Bool} {digits : List Char} (all : AllDigits digits)
    (nonempty : digits ≠ []) :
    scale? ('e' :: (if negative then '-' else '+') :: digits) =
      some (withSign negative (digitsValue digits), []) := by
  have taken := takeDigits_allDigits all noDigit_nil
  rw [List.append_nil] at taken
  have sign : takeSign ((if negative then '-' else '+') :: digits) = (negative, digits) := by
    cases negative <;> rfl
  simp only [scale?, sign, taken]
  cases digits with
  | nil => exact absurd rfl nonempty
  | cons c digits => rfl

/-- Digits before the point: at least one, and no zero but a single one in front. -/
structure Whole (digits : List Char) : Prop where
  all : AllDigits digits
  nonempty : digits ≠ []
  zero : digits.head? = some '0' → digits.length = 1

theorem readNumber_whole {negative : Bool} {digits rest : List Char} (whole : Whole digits)
    (ended : NoDigit rest) :
    readNumber negative (digits ++ rest) = numberFrom negative digits rest := by
  rw [readNumber_eq (takeDigits_allDigits whole.all ended), if_neg whole.nonempty,
    if_neg fun ⟨zero, more⟩ => more (whole.zero zero)]

/-! ## Integers -/

theorem whole_natDigits (n : Nat) : Whole (natDigits n) where
  all := allDigits_natDigits n
  nonempty := natDigits_ne_nil n
  zero := by
    intro zero
    rcases Nat.eq_zero_or_pos n with rfl | positive
    · rfl
    · exact absurd zero (head?_natDigits positive)

theorem readNumber_natDigits {negative : Bool} {n : Nat}
    (short : (natDigits n).length ≤ digitLimit) :
    readNumber negative (natDigits n) = .ok (.int (withSign negative n), []) := by
  have read : readNumber negative (natDigits n ++ []) = numberFrom negative (natDigits n) [] :=
    readNumber_whole (whole_natDigits n) noDigit_nil
  rw [List.append_nil] at read
  rw [read]
  simp [numberFrom, fraction?, scale?, Nat.not_lt.mpr short, digitsValue_natDigits]

/-! ## Doubles -/

/-- A decimal text without its sign: digits, perhaps a point and digits, and perhaps an exponent, at
least one of them. It is worth its digits times a power of ten. -/
structure DecimalText (s : List Char) (x : ℚ) : Prop where
  read : ∀ negative, ∃ (digits : Nat) (exponent : Int), (digits * 10 ^ exponent : ℚ) = x ∧
    readNumber negative s = .ok (.float (Binary64.ofDecimal negative digits exponent), [])

theorem decimalText_point {whole places : List Char} (front : Whole whole) (all : AllDigits places)
    (nonempty : places ≠ []) :
    DecimalText (whole ++ '.' :: places)
      (digitsValue (whole ++ places) * 10 ^ (-(places.length : Int))) where
  read := by
    intro negative
    refine ⟨_, _, rfl, ?_⟩
    have fraction := fraction?_point all nonempty noDigit_nil
    rw [List.append_nil] at fraction
    rw [readNumber_whole front (noDigit_cons rfl places)]
    simp [numberFrom, fraction, scale?]

theorem decimalText_exponent {whole exponent : List Char} (front : Whole whole)
    (all : AllDigits exponent) (nonempty : exponent ≠ []) (below : Bool) :
    DecimalText (whole ++ 'e' :: (if below then '-' else '+') :: exponent)
      (digitsValue whole * 10 ^ withSign below (digitsValue exponent)) where
  read := by
    intro negative
    refine ⟨_, _, rfl, ?_⟩
    rw [readNumber_whole front (noDigit_cons rfl _)]
    simp [numberFrom, fraction?, scale?_exponent all nonempty]

theorem decimalText_point_exponent {whole places exponent : List Char} (front : Whole whole)
    (digits : AllDigits places) (some : places ≠ []) (all : AllDigits exponent)
    (nonempty : exponent ≠ []) (below : Bool) :
    DecimalText (whole ++ '.' :: (places ++ 'e' :: (if below then '-' else '+') :: exponent))
      (digitsValue (whole ++ places) *
        10 ^ (withSign below (digitsValue exponent) - places.length)) where
  read := by
    intro negative
    refine ⟨_, _, rfl, ?_⟩
    have ended : NoDigit ('e' :: (if below then '-' else '+') :: exponent) := noDigit_cons rfl _
    rw [readNumber_whole front (noDigit_cons rfl _)]
    simp [numberFrom, fraction?_point digits some ended, scale?_exponent all nonempty]

theorem decimalText_positional {digits : List Char} (all : AllDigits digits)
    (nonempty : digits ≠ []) (leading : digits.head? ≠ some '0') (whole : Int) :
    DecimalText (positional digits whole)
      (digitsValue digits * 10 ^ (whole - digits.length)) := by
  unfold positional
  split
  · rename_i small
    let places := List.replicate (-whole).toNat '0' ++ digits
    have zero : Whole ['0'] := ⟨allDigits_zeros 1, List.cons_ne_nil _ _, fun _ => rfl⟩
    have allPlaces : AllDigits places :=
      allDigits_append.mpr ⟨allDigits_zeros (-whole).toNat, all⟩
    have text := decimalText_point zero allPlaces
      (List.append_ne_nil_of_right_ne_nil _ nonempty)
    have value : digitsValue (['0'] ++ places) = digitsValue digits := by
      have zeros : ['0'] ++ places = List.replicate ((-whole).toNat + 1) '0' ++ digits := rfl
      rw [zeros, digitsValue_append, digitsValue_zeros, Nat.zero_mul, Nat.zero_add]
    have length : -(places.length : Int) = whole - digits.length := by
      rw [List.length_append, List.length_replicate]
      omega
    rwa [value, length] at text
  · rename_i large
    obtain ⟨k, rfl, some⟩ : ∃ k : Nat, whole = k ∧ 0 < k := ⟨whole.toNat, by omega, by omega⟩
    rw [Int.toNat_natCast]
    dsimp only
    rcases lt_or_ge k digits.length with inside | beyond
    · have front : Whole (digits.take k) := by
        refine ⟨fun c member => all c (List.mem_of_mem_take member), ?_, fun zero => ?_⟩
        · simp [nonempty, some.ne']
        · rw [List.head?_take, if_neg some.ne'] at zero
          exact absurd zero leading
      have behind : digits.drop k ≠ [] := by simpa using inside
      have text := decimalText_point front (fun c member => all c (List.mem_of_mem_drop member))
        behind
      have length : -((digits.drop k).length : Int) = k - digits.length := by
        rw [List.length_drop]
        omega
      rw [List.take_append_drop, length] at text
      have noFill : k - digits.length = 0 := by omega
      simpa [noFill, behind] using text
    · let front := digits ++ List.replicate (k - digits.length) '0'
      have whole : Whole front := by
        refine ⟨allDigits_append.mpr ⟨all, allDigits_zeros _⟩,
          List.append_ne_nil_of_left_ne_nil nonempty _, fun zero => ?_⟩
        rw [List.head?_append_of_ne_nil _ nonempty] at zero
        exact absurd zero leading
      have text := decimalText_point whole (allDigits_zeros 1) (List.cons_ne_nil _ _)
      have value : digitsValue (front ++ List.replicate 1 '0') =
          digitsValue digits * 10 ^ (k - digits.length + 1) := by
        rw [List.append_assoc, List.replicate_append_replicate, digitsValue_append,
          digitsValue_zeros, List.length_replicate, Nat.add_zero]
      have exponent : (10 : ℚ) ^ (k - digits.length + 1) *
          10 ^ (-((List.replicate 1 '0').length : Int)) = 10 ^ ((k : Int) - digits.length) := by
        rw [← zpow_natCast, ← zpow_add₀ (by norm_num)]
        congr 1
        rw [List.length_replicate]
        omega
      rw [value, Nat.cast_mul, Nat.cast_pow, Nat.cast_ofNat, mul_assoc, exponent] at text
      have taken : digits.take k = digits := List.take_of_length_le beyond
      have dropped : digits.drop k = [] := List.drop_of_length_le beyond
      simpa [taken, dropped, front] using text

theorem decimalText_exponential {digits : List Char} (all : AllDigits digits)
    (nonempty : digits ≠ []) (leading : digits.head? ≠ some '0') (power : Int) :
    DecimalText (exponential layout digits power)
      (digitsValue digits * 10 ^ (power - (digits.length - 1))) := by
  obtain ⟨first, rest, rfl⟩ := List.exists_cons_of_ne_nil nonempty
  have front : Whole [first] := by
    refine ⟨fun c member => all c (List.mem_cons.mpr (.inl (List.mem_singleton.mp member))),
      List.cons_ne_nil _ _, fun zero => rfl⟩
  let exponent := List.replicate (layout.exponentWidth - (natDigits power.natAbs).length) '0' ++
    natDigits power.natAbs
  have exponentDigits : AllDigits exponent :=
    allDigits_append.mpr ⟨allDigits_zeros _, allDigits_natDigits _⟩
  have exponentNonempty : exponent ≠ [] :=
    List.append_ne_nil_of_right_ne_nil _ (natDigits_ne_nil _)
  have scale : withSign (decide (power < 0)) (digitsValue exponent) = power := by
    have value : digitsValue exponent = power.natAbs := by
      rw [digitsValue_append, digitsValue_zeros, digitsValue_natDigits, Nat.zero_mul, Nat.zero_add]
    rw [value]
    simp only [withSign, decide_eq_true_eq]
    split <;> omega
  have sign : (if decide (power < 0) = true then '-' else '+') =
      if power < 0 then '-' else '+' := by simp
  cases rest with
  | nil =>
      have text := decimalText_exponent front exponentDigits exponentNonempty (decide (power < 0))
      rw [scale, sign] at text
      simpa [exponential] using text
  | cons second rest =>
      have places : AllDigits (second :: rest) := fun c member =>
        all c (List.mem_cons_of_mem first member)
      have text := decimalText_point_exponent front places (List.cons_ne_nil _ _) exponentDigits
        exponentNonempty (decide (power < 0))
      rw [scale, sign] at text
      simpa [exponential, exponent] using text

/-- The text of a double is worth a rational in its rounding interval. -/
theorem decimalText_magnitudeText {m : Nat} {e : Int} (canonical : Binary64.Canonical m e)
    (some : 0 < m) :
    DecimalText (magnitudeText layout m e) ((shortest m e).digits * 10 ^ (shortest m e).power) := by
  have positive : 0 < (shortest m e).digits := by
    have large := (Binary64.size_of_holds canonical some (holds_shortest canonical some)).1
    rcases Nat.eq_zero_or_pos (shortest m e).digits with none | positive
    · rw [none, Nat.cast_zero, zero_mul] at large
      exact absurd large (not_lt.mpr (by positivity))
    · exact positive
  unfold magnitudeText
  rw [if_neg some.ne']
  dsimp only
  split
  · have text := decimalText_positional (allDigits_natDigits _) (natDigits_ne_nil _)
      (head?_natDigits positive) ((shortest m e).power + (natDigits (shortest m e).digits).length)
    rw [digitsValue_natDigits, add_sub_cancel_right] at text
    rwa [sub_add_cancel]
  · have text := decimalText_exponential (allDigits_natDigits _) (natDigits_ne_nil _)
      (head?_natDigits positive)
      ((shortest m e).power + (natDigits (shortest m e).digits).length - 1)
    rw [digitsValue_natDigits, sub_sub_sub_cancel_right, add_sub_cancel_right] at text
    exact text

theorem readNumber_magnitudeText {m : Nat} {e : Int} (canonical : Binary64.Canonical m e)
    (negative : Bool) :
    readNumber negative (magnitudeText layout m e) = .ok (.float (.finite negative m e), []) := by
  rcases Nat.eq_zero_or_pos m with rfl | some
  · have least : e = Binary64.minExponent := canonical.full.resolve_left (by norm_num)
    subst least
    cases negative <;> rfl
  · obtain ⟨digits, exponent, value, read⟩ :=
      (decimalText_magnitudeText canonical some).read negative
    have holds := holds_shortest canonical some
    rw [← value] at holds
    rw [read, Binary64.ofDecimal_eq canonical some holds negative]

/-! ## Numbers as values -/

theorem readScalar_digit {c : Char} (digit : isDigit c = true) (s : List Char) :
    readScalar (c :: s) = readNumber false (c :: s) ∧
      readScalar ('-' :: c :: s) = readNumber true (c :: s) := by
  have others : ∀ d ∈ ['n', 't', 'f', 'N', 'I', '-'], d ≠ c := by
    rintro d member rfl
    simp only [List.mem_cons, List.not_mem_nil, or_false] at member
    rcases member with rfl | rfl | rfl | rfl | rfl | rfl <;> cases digit
  simp only [List.forall_mem_cons] at others
  obtain ⟨n, t, f, nan, infinity, minus, -⟩ := others
  constructor
  · simp [readScalar, wordValues, List.isPrefixOf?, n, t, f, nan, infinity, minus,
      minus.symm]
  · simp [readScalar, wordValues, List.isPrefixOf?, infinity]

/-- A number whose text begins with a digit, behind its sign. -/
theorem readScalar_signed {digits : List Char} {v : Bool → Value} (negative : Bool)
    (leading : ∀ c ∈ digits.head?, isDigit c = true) (nonempty : digits ≠ [])
    (read : ∀ negative, readNumber negative digits = .ok (v negative, [])) :
    readScalar (if negative then '-' :: digits else digits) = .ok (v negative, []) := by
  obtain ⟨c, rest, rfl⟩ := List.exists_cons_of_ne_nil nonempty
  obtain ⟨plain, signed⟩ := readScalar_digit (leading c rfl) rest
  cases negative with
  | true => exact signed.trans (read true)
  | false => exact plain.trans (read false)

/-- An integer is read back from its text, if it does not have too many digits. -/
theorem readScalar_intText {n : Int} (short : (natDigits n.natAbs).length ≤ digitLimit) :
    readScalar (intText n).toList = .ok (.int n, []) := by
  have leading : ∀ c ∈ (natDigits n.natAbs).head?, isDigit c = true := fun c head =>
    allDigits_natDigits _ c (List.mem_of_mem_head? head)
  have read := readScalar_signed (v := fun negative => .int (withSign negative n.natAbs))
    (decide (n < 0)) leading (natDigits_ne_nil _) fun negative => readNumber_natDigits short
  have value : withSign (decide (n < 0)) n.natAbs = n := by
    simp only [withSign, decide_eq_true_eq]
    split <;> omega
  rw [value] at read
  unfold intText
  rw [String.toList_ofList]
  simpa using read

theorem head?_magnitudeText (m : Nat) (e : Int) :
    magnitudeText layout m e ≠ [] ∧ ∀ c ∈ (magnitudeText layout m e).head?, isDigit c = true := by
  have digits (n : Nat) : natDigits n ≠ [] ∧ ∀ c ∈ (natDigits n).head?, isDigit c = true :=
    ⟨natDigits_ne_nil n, fun c head => allDigits_natDigits n c (List.mem_of_mem_head? head)⟩
  unfold magnitudeText
  split
  · exact ⟨List.cons_ne_nil _ _, by simp; rfl⟩
  · dsimp only
    obtain ⟨nonempty, leading⟩ := digits (shortest m e).digits
    obtain ⟨first, rest, shape⟩ := List.exists_cons_of_ne_nil nonempty
    rw [shape] at leading ⊢
    have digit := leading first rfl
    split
    · unfold positional
      split
      · exact ⟨List.cons_ne_nil _ _, by simp; rfl⟩
      · obtain ⟨k, whole⟩ : ∃ k : Nat, ((shortest m e).power + ((first :: rest).length : Int) - 1 +
            1).toNat = k + 1 := ⟨_, (Nat.succ_pred_eq_of_pos (by omega)).symm⟩
        rw [whole]
        simp [digit]
    · simp [exponential, digit]

/-- A double as rounding produces it is read back from its text. -/
theorem readScalar_text {x : Binary64} (canonical : x.IsCanonical) :
    readScalar (x.text ⟨"NaN", "Infinity"⟩).toList = .ok (.float x, []) := by
  cases x with
  | nan => rfl
  | infinite negative => cases negative <;> rfl
  | finite negative m e =>
      obtain ⟨nonempty, leading⟩ := head?_magnitudeText m e
      have read := readScalar_signed (v := fun negative => .float (.finite negative m e)) negative
        leading nonempty (readNumber_magnitudeText canonical)
      simpa [Binary64.text] using read

end FlowCorpus.Json
