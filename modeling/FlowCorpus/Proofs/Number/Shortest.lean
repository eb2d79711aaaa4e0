import FlowCorpus.Proofs.Number.Rounding

/-!
# Shortest digits lie in the rounding interval

Seventeen digits are enough for every double: on the last grid that is searched the point nearest to
the double lies in its rounding interval. So the search ends with a decimal that is rounded to the
double, on whichever grid it finds it.
-/

set_option autoImplicit false

namespace FlowCorpus.Number

/-! ## Fractions -/

namespace Fraction

def value (x : Fraction) : ℚ :=
  x.numerator / x.denominator

structure Positive (x : Fraction) : Prop where
  numerator : 0 < x.numerator
  denominator : 0 < x.denominator

theorem scaled_spec {significand : Nat} (some : 0 < significand) (exponent : Int) :
    (scaled significand exponent).Positive ∧
      (scaled significand exponent).value = significand * 2 ^ exponent := by
  unfold scaled value
  split
  · rename_i up
    obtain ⟨k, rfl⟩ := Int.eq_ofNat_of_zero_le up
    simp only [powerOfTwo_eq, Int.toNat_natCast, Nat.cast_mul, Nat.cast_pow, Nat.cast_ofNat,
      zpow_natCast, Nat.cast_one, div_one]
    exact ⟨⟨by positivity, one_pos⟩, trivial⟩
  · rename_i down
    obtain ⟨k, rfl⟩ : ∃ k : Nat, exponent = -k := ⟨(-exponent).toNat, by omega⟩
    simp only [powerOfTwo_eq, neg_neg, Int.toNat_natCast, Nat.cast_pow, Nat.cast_ofNat, zpow_neg,
      zpow_natCast]
    exact ⟨⟨some, by positivity⟩, rfl⟩

theorem timesPowerOfTen_spec {x : Fraction} (positive : x.Positive) (power : Int) :
    (x.timesPowerOfTen power).Positive ∧
      (x.timesPowerOfTen power).value = x.value * 10 ^ power := by
  obtain ⟨numerator, denominator⟩ := positive
  unfold timesPowerOfTen value
  split
  · rename_i up
    obtain ⟨k, rfl⟩ := Int.eq_ofNat_of_zero_le up
    simp only [powerOfTen_eq, Int.toNat_natCast, Nat.cast_mul, Nat.cast_pow, Nat.cast_ofNat,
      zpow_natCast]
    exact ⟨⟨by positivity, denominator⟩, by ring⟩
  · rename_i down
    obtain ⟨k, rfl⟩ : ∃ k : Nat, power = -k := ⟨(-power).toNat, by omega⟩
    simp only [powerOfTen_eq, neg_neg, Int.toNat_natCast, Nat.cast_mul, Nat.cast_pow,
      Nat.cast_ofNat, zpow_neg, zpow_natCast]
    exact ⟨⟨numerator, by positivity⟩, by rw [div_mul_eq_div_div, div_eq_mul_inv]⟩

theorem liftToOne_spec {x : Fraction} (fuel : Nat) {count enough : Nat} (least : count ≤ enough)
    (greatest : enough ≤ count + fuel) (lifted : x.denominator ≤ x.numerator * 10 ^ enough) :
    x.denominator ≤ x.numerator * 10 ^ x.liftToOne fuel count := by
  induction fuel generalizing count with
  | zero =>
      have same : enough = count := by omega
      exact same ▸ lifted
  | succ fuel ih =>
      unfold liftToOne
      split
      · rename_i found
        exact found
      · rename_i lower
        have later : count ≠ enough := by
          rintro rfl
          exact lower lifted
        exact ih (by omega) (by omega)

/-- The leading digit of a fraction that is not too small is not above it. -/
theorem leadingPower_le {x : Fraction} (positive : x.Positive)
    (large : x.denominator ≤ x.numerator * 10 ^ 401) : (10 : ℚ) ^ x.leadingPower ≤ x.value := by
  obtain ⟨numerator, denominator⟩ := positive
  have rational : (0 : ℚ) < x.denominator := by exact_mod_cast denominator
  unfold leadingPower value
  split
  · rename_i one
    have quotient : 0 < x.numerator / x.denominator := Nat.div_pos one denominator
    exact (length_toDigits_bounds quotient).1.trans Nat.cast_div_le
  · rw [le_div_iff₀ rational, zpow_neg, zpow_natCast, inv_mul_le_iff₀ (by positivity)]
    have lifted := liftToOne_spec 400 (by norm_num : 1 ≤ 401) (by norm_num) large
    rw [mul_comm] at lifted
    exact_mod_cast lifted

end Fraction

namespace RoundingInterval

variable (i : RoundingInterval)

/-! ## Points of a grid -/

theorem step_spec (power : Int) :
    (i.step power).Positive ∧ (i.step power).value = 10 ^ power / 2 ^ i.exponent := by
  obtain ⟨unit, value⟩ := Fraction.scaled_spec one_pos (-i.exponent)
  obtain ⟨positive, product⟩ := Fraction.timesPowerOfTen_spec unit power
  refine ⟨positive, product.trans ?_⟩
  rw [value, zpow_neg, Nat.cast_one, one_mul, mul_comm, div_eq_mul_inv]

theorem contains_iff (power : Int) (n : Nat) :
    i.contains (i.step power) n = true ↔ i.Holds (n * 10 ^ power) := by
  obtain ⟨⟨-, denominator⟩, value⟩ := i.step_spec power
  have rational : (0 : ℚ) < (i.step power).denominator := by exact_mod_cast denominator
  have unit : (0 : ℚ) < 2 ^ i.exponent := by positivity
  have point : (n * (i.step power).numerator : ℚ) / (i.step power).denominator * 2 ^ i.exponent =
      n * 10 ^ power := by
    rw [mul_div_assoc]
    change (n : ℚ) * (i.step power).value * 2 ^ i.exponent = n * 10 ^ power
    rw [value]
    field_simp
  have le_point (k : Nat) : k * (i.step power).denominator ≤ n * (i.step power).numerator ↔
      (k : ℚ) * 2 ^ i.exponent ≤ n * 10 ^ power := by
    rw [← point, mul_le_mul_iff_left₀ unit, le_div_iff₀ rational]
    exact_mod_cast Iff.rfl
  have point_le (k : Nat) : n * (i.step power).numerator ≤ k * (i.step power).denominator ↔
      (n : ℚ) * 10 ^ power ≤ k * 2 ^ i.exponent := by
    rw [← point, mul_le_mul_iff_left₀ unit, div_le_iff₀ rational]
    exact_mod_cast Iff.rfl
  have lt_point (k : Nat) : k * (i.step power).denominator < n * (i.step power).numerator ↔
      (k : ℚ) * 2 ^ i.exponent < n * 10 ^ power := by
    rw [← not_le, point_le, not_le]
  have point_lt (k : Nat) : n * (i.step power).numerator < k * (i.step power).denominator ↔
      (n : ℚ) * 10 ^ power < k * 2 ^ i.exponent := by
    rw [← not_le, le_point, not_le]
  unfold contains Holds
  dsimp only
  split
  · rw [Bool.and_eq_true, decide_eq_true_eq, decide_eq_true_eq, le_point, point_le]
  · rw [Bool.and_eq_true, decide_eq_true_eq, decide_eq_true_eq, lt_point, point_lt]

/-- The points next to the center are tried, the nearer one first. -/
theorem nearest?_eq (power : Int) :
    ∃ farther, i.nearest? power =
      (let nearer := divNearestEven (i.center * (i.step power).denominator) (i.step power).numerator
      if i.contains (i.step power) nearer then some nearer
      else if i.contains (i.step power) farther then some farther
      else none) :=
  ⟨_, rfl⟩

theorem holds_of_nearest? {power : Int} {n : Nat} (found : i.nearest? power = some n) :
    i.Holds (n * 10 ^ power) := by
  rw [← i.contains_iff]
  obtain ⟨farther, tried⟩ := i.nearest?_eq power
  rw [tried] at found
  dsimp only at found
  split at found
  · rename_i inside
    cases found
    exact inside
  · split at found
    · rename_i inside
      cases found
      exact inside
    · cases found

/-- A grid with steps smaller than twice both parts of the interval, below its center and above, has
a point in it. -/
theorem nearest?_isSome {power : Int}
    (low : (10 : ℚ) ^ power < 2 * (i.center - i.low) * 2 ^ i.exponent)
    (high : (10 : ℚ) ^ power < 2 * (i.high - i.center) * 2 ^ i.exponent) :
    (i.nearest? power).isSome = true := by
  obtain ⟨⟨numerator, denominator⟩, value⟩ := i.step_spec power
  have unit : (0 : ℚ) < 2 ^ i.exponent := by positivity
  have rational : (0 : ℚ) < (i.step power).denominator := by exact_mod_cast denominator
  have step : ((i.step power).numerator : ℚ) * 2 ^ i.exponent =
      10 ^ power * (i.step power).denominator := by
    unfold Fraction.value at value
    rw [div_eq_div_iff rational.ne' unit.ne'] at value
    exact value
  obtain ⟨above, below⟩ := divNearestEven_near (i.center * (i.step power).denominator) numerator
  have inside : i.Holds (divNearestEven (i.center * (i.step power).denominator)
      (i.step power).numerator * 10 ^ power) := by
    generalize divNearestEven _ _ = n at above below
    have atLeast : (2 : ℚ) * (i.center * 2 ^ i.exponent) ≤ 2 * (n * 10 ^ power) + 10 ^ power := by
      refine le_of_mul_le_mul_right ?_ rational
      calc (2 : ℚ) * (i.center * 2 ^ i.exponent) * (i.step power).denominator
          = 2 * (i.center * (i.step power).denominator) * 2 ^ i.exponent := by ring
        _ ≤ (2 * (i.step power).numerator * n + (i.step power).numerator) * 2 ^ i.exponent := by
          gcongr
          exact_mod_cast above
        _ = (2 * n + 1) * ((i.step power).numerator * 2 ^ i.exponent) := by ring
        _ = (2 * (n * 10 ^ power) + 10 ^ power) * (i.step power).denominator := by
          rw [step]
          ring
    have atMost : (2 : ℚ) * (n * 10 ^ power) ≤ 2 * (i.center * 2 ^ i.exponent) + 10 ^ power := by
      refine le_of_mul_le_mul_right ?_ rational
      calc (2 : ℚ) * (n * 10 ^ power) * (i.step power).denominator
          = 2 * n * ((i.step power).numerator * 2 ^ i.exponent) := by
            rw [step]
            ring
        _ = 2 * (i.step power).numerator * n * 2 ^ i.exponent := by ring
        _ ≤ (2 * (i.center * (i.step power).denominator) + (i.step power).numerator) *
            2 ^ i.exponent := by
          gcongr
          exact_mod_cast below
        _ = 2 * (i.center * (i.step power).denominator) * 2 ^ i.exponent +
            (i.step power).numerator * 2 ^ i.exponent := by ring
        _ = (2 * (i.center * 2 ^ i.exponent) + 10 ^ power) * (i.step power).denominator := by
          rw [step]
          ring
    unfold Holds
    split
    · constructor <;> linarith
    · constructor <;> linarith
  obtain ⟨farther, tried⟩ := i.nearest?_eq power
  rw [← i.contains_iff] at inside
  rw [tried]
  simp [inside]

/-- A search that comes to a grid with a point in the interval ends with a point in it. -/
theorem holds_search {fuel : Nat} {power : Int}
    (last : (i.nearest? (power - fuel)).isSome = true) :
    i.Holds ((i.search fuel power).digits * 10 ^ (i.search fuel power).power) := by
  induction fuel generalizing power with
  | zero =>
      obtain ⟨n, found⟩ := Option.isSome_iff_exists.mp last
      rw [Nat.cast_zero, sub_zero] at found
      simp only [search, found, Option.getD_some]
      exact i.holds_of_nearest? found
  | succ fuel ih =>
      unfold search
      split
      · rename_i n found
        exact i.holds_of_nearest? found
      · refine ih ?_
        rwa [sub_sub, add_comm 1, ← Nat.cast_succ]

end RoundingInterval

/-! ## Seventeen digits -/

open Binary64

theorem powerOfTwo_le {k n : Nat} (less : k ≤ n) : powerOfTwo k ≤ powerOfTwo n :=
  Nat.pow_le_pow_right two_pos less

theorem leadingPower_scaled_le {m : Nat} {e : Int} (canonical : Canonical m e) (some : 0 < m) :
    (10 : ℚ) ^ (Fraction.scaled m e).leadingPower ≤ m * 2 ^ e := by
  obtain ⟨positive, value⟩ := Fraction.scaled_spec some e
  rw [← value]
  refine Fraction.leadingPower_le positive ?_
  have power : powerOfTwo 1074 ≤ 10 ^ 401 := by decide +kernel
  have denominator : (Fraction.scaled m e).denominator ≤ 10 ^ 401 := by
    have least := canonical.least
    unfold Fraction.scaled
    split
    · exact Nat.one_le_iff_ne_zero.mpr (pow_ne_zero _ (by norm_num))
    · unfold minExponent at least
      have places : (-e).toNat ≤ 1074 := by omega
      exact (powerOfTwo_le places).trans power
  exact denominator.trans (Nat.le_mul_of_pos_left _ positive.numerator)

/-- A step of which a double has ten to the sixteenth is smaller than twice both parts of its
interval. -/
theorem step_lt {m : Nat} {e : Int} {step : ℚ} (canonical : Canonical m e) (some : 0 < m)
    (small : step * 10 ^ 16 ≤ m * 2 ^ e) :
    let i := RoundingInterval.ofDouble m e
    step < 2 * (i.center - i.low) * 2 ^ i.exponent ∧
      step < 2 * (i.high - i.center) * 2 ^ i.exponent := by
  have unit : (0 : ℚ) < 2 ^ e := by positivity
  have center : ((RoundingInterval.ofDouble m e).center : ℚ) = 4 * m := by
    change ((4 * m : Nat) : ℚ) = 4 * m
    push_cast
    rfl
  have short : (m : ℚ) ≤ 2 ^ 53 := by exact_mod_cast canonical.short.le
  have product : (m : ℚ) * 2 ^ e ≤ 2 ^ 53 * 2 ^ e := mul_le_mul_of_nonneg_right short unit.le
  have less : step < 2 ^ e := by
    norm_num at small product
    linarith
  dsimp only
  rw [unit_ofDouble, center, low_ofDouble some, high_ofDouble]
  constructor
  · split
    · -- Below a power of two the interval is half as wide, but the significand has half the size.
      rename_i power
      rw [power.1] at small ⊢
      norm_num at small ⊢
      linarith
    · linarith
  · linarith

/-- The shortest digits of a double lie in its rounding interval. -/
theorem holds_shortest {m : Nat} {e : Int} (canonical : Canonical m e) (some : 0 < m) :
    (RoundingInterval.ofDouble m e).Holds ((shortest m e).digits * 10 ^ (shortest m e).power) := by
  have grid : (10 : ℚ) ^ ((Fraction.scaled m e).leadingPower + 1 - (17 : Nat)) * 10 ^ 16 ≤
      m * 2 ^ e := by
    refine le_trans (le_of_eq ?_) (leadingPower_scaled_le canonical some)
    rw [← zpow_natCast (10 : ℚ) 16, ← zpow_add₀ (by norm_num)]
    congr 1
    push_cast
    ring
  obtain ⟨low, high⟩ := step_lt canonical some grid
  exact RoundingInterval.holds_search _ (RoundingInterval.nearest?_isSome _ low high)

end FlowCorpus.Number
