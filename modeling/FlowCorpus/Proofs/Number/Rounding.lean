import Mathlib
import FlowCorpus.Number.Shortest

/-!
# Rounding to the nearest double

A fraction is rounded to a double just by its place among the rationals: every fraction in the
rounding interval of a double has this double as its nearest one.
-/

set_option autoImplicit false

namespace FlowCorpus.Number

theorem powerOfTwo_eq (n : Nat) : powerOfTwo n = 2 ^ n := rfl

theorem powerOfTen_eq (n : Nat) : powerOfTen n = 10 ^ n := rfl

theorem length_toDigits_bounds {n : Nat} (positive : 0 < n) :
    (10 : ℚ) ^ (((Nat.toDigits 10 n).length : Int) - 1) ≤ n ∧
      (n : ℚ) < 10 ^ ((Nat.toDigits 10 n).length : Int) := by
  have some : 0 < (Nat.toDigits 10 n).length := Nat.length_toDigits_pos
  have high : n < 10 ^ (Nat.toDigits 10 n).length :=
    (Nat.length_toDigits_le_iff (by norm_num) some).mp le_rfl
  have low : 10 ^ ((Nat.toDigits 10 n).length - 1) ≤ n := by
    rcases Nat.eq_zero_or_pos ((Nat.toDigits 10 n).length - 1) with none | more
    · rw [none]
      exact positive
    · by_contra less
      have short := (Nat.length_toDigits_le_iff (by norm_num) more).mpr (not_le.mp less)
      omega
  constructor
  · rw [← Nat.cast_pred some, zpow_natCast]
    exact_mod_cast low
  · rw [zpow_natCast]
    exact_mod_cast high

/-! ## Rounding a quotient -/

theorem divNearestEven_near (n : Nat) {d : Nat} (positive : 0 < d) :
    2 * n ≤ 2 * d * divNearestEven n d + d ∧ 2 * d * divNearestEven n d ≤ 2 * n + d := by
  have parts : d * (n / d) + n % d = n := Nat.div_add_mod n d
  have rest : n % d < d := Nat.mod_lt n positive
  have next : 2 * d * (n / d + 1) = 2 * (d * (n / d)) + 2 * d := by ring
  have same : 2 * d * (n / d) = 2 * (d * (n / d)) := by ring
  unfold divNearestEven
  dsimp only
  split
  · omega
  · split
    · omega
    · split <;> omega

/-- A natural number is the rounded quotient when it is not further than a half from the quotient,
and even if it is a half away. -/
theorem divNearestEven_eq {n d k : Nat} (positive : 0 < d)
    (low : (k : ℚ) - 1 / 2 ≤ n / d) (high : (n / d : ℚ) ≤ k + 1 / 2)
    (tie : k % 2 = 0 ∨ ((k : ℚ) - 1 / 2 < n / d ∧ (n / d : ℚ) < k + 1 / 2)) :
    divNearestEven n d = k := by
  have rational : (0 : ℚ) < d := by exact_mod_cast positive
  have above : 2 * k * d ≤ 2 * n + d := by
    rw [le_div_iff₀ rational] at low
    have : (2 * k * d : ℚ) ≤ 2 * n + d := by linarith
    exact_mod_cast this
  have below : 2 * n ≤ 2 * k * d + d := by
    rw [div_le_iff₀ rational] at high
    have : (2 * n : ℚ) ≤ 2 * k * d + d := by linarith
    exact_mod_cast this
  have strict : k % 2 = 0 ∨ (2 * k * d < 2 * n + d ∧ 2 * n < 2 * k * d + d) := by
    refine tie.imp_right fun ⟨left, right⟩ => ?_
    rw [lt_div_iff₀ rational] at left
    rw [div_lt_iff₀ rational] at right
    have first : (2 * k * d : ℚ) < 2 * n + d := by linarith
    have second : (2 * n : ℚ) < 2 * k * d + d := by linarith
    exact ⟨by exact_mod_cast first, by exact_mod_cast second⟩
  have parts : d * (n / d) + n % d = n := Nat.div_add_mod n d
  have rest : n % d < d := Nat.mod_lt n positive
  unfold divNearestEven
  generalize n / d = q at *
  generalize n % d = r at *
  have least : q ≤ k := by
    by_contra less
    have next : k + 1 ≤ q := by omega
    have product : d * (k + 1) ≤ d * q := Nat.mul_le_mul_left d next
    nlinarith
  have greatest : k ≤ q + 1 := by
    by_contra more
    have next : q + 2 ≤ k := by omega
    have product : d * (q + 2) ≤ d * k := Nat.mul_le_mul_left d next
    nlinarith
  have cases : k = q ∨ k = q + 1 := by omega
  dsimp only
  rcases cases with rfl | rfl
  · have product : 2 * k * d = 2 * (d * k) := by ring
    split
    · rfl
    · split
      · omega
      · split
        · rfl
        · omega
  · have product : 2 * (q + 1) * d = 2 * (d * q) + 2 * d := by ring
    split
    · omega
    · split
      · rfl
      · split
        · omega
        · rfl

namespace Binary64

/-! ## The exponent of a fraction -/

theorem scaleDown_spec (n : Nat) {d : Nat} (positive : 0 < d) (exponent : Int) :
    0 < (scaleDown n d exponent).2 ∧
      ((scaleDown n d exponent).1 / (scaleDown n d exponent).2 : ℚ) =
        n / d / 2 ^ exponent := by
  unfold scaleDown
  split
  · rename_i up
    obtain ⟨k, rfl⟩ := Int.eq_ofNat_of_zero_le up
    simp only [powerOfTwo_eq, Int.toNat_natCast, Nat.cast_mul, Nat.cast_pow, Nat.cast_ofNat,
      zpow_natCast]
    exact ⟨by positivity, by rw [div_div]⟩
  · rename_i down
    obtain ⟨k, rfl⟩ : ∃ k : Nat, exponent = -k := ⟨(-exponent).toNat, by omega⟩
    simp only [powerOfTwo_eq, neg_neg, Int.toNat_natCast, Nat.cast_mul, Nat.cast_pow,
      Nat.cast_ofNat, zpow_neg, zpow_natCast, div_inv_eq_mul]
    exact ⟨positive, by ring⟩

theorem log2_bounds {n : Nat} (positive : 0 < n) :
    (2 : ℚ) ^ (Nat.log2 n : Int) ≤ n ∧ (n : ℚ) < 2 ^ ((Nat.log2 n : Int) + 1) := by
  have low := Nat.log2_self_le (Nat.pos_iff_ne_zero.mp positive)
  have high := Nat.lt_log2_self (n := n)
  constructor
  · rw [zpow_natCast]
    exact_mod_cast low
  · rw [← Nat.cast_succ, zpow_natCast]
    exact_mod_cast high

/-- There is one exponent at which the significand of a fraction has fifty-three digits, and it is
the one that is chosen unless it is below the least one. -/
theorem exponentFor_spec {n d : Nat} (positive : 0 < n) (proper : 0 < d) :
    ∃ e : Int, exponentFor n d = max e minExponent ∧
      (2 : ℚ) ^ (52 : Int) * 2 ^ e ≤ n / d ∧ (n / d : ℚ) < 2 ^ (53 : Int) * 2 ^ e := by
  obtain ⟨nLow, nHigh⟩ := log2_bounds positive
  obtain ⟨dLow, dHigh⟩ := log2_bounds proper
  have rational : (0 : ℚ) < d := by exact_mod_cast proper
  let guess : Int := (Nat.log2 n : Int) - (Nat.log2 d : Int) - 52
  have below : (2 : ℚ) ^ (51 : Int) * 2 ^ guess ≤ n / d := by
    rw [le_div_iff₀ rational]
    calc (2 : ℚ) ^ (51 : Int) * 2 ^ guess * d
        ≤ 2 ^ (51 : Int) * 2 ^ guess * 2 ^ ((Nat.log2 d : Int) + 1) := by gcongr
      _ = 2 ^ (Nat.log2 n : Int) := by
        rw [← zpow_add₀ two_ne_zero, ← zpow_add₀ two_ne_zero]
        congr 1
        omega
      _ ≤ n := nLow
  have above : (n / d : ℚ) < 2 ^ (53 : Int) * 2 ^ guess := by
    rw [div_lt_iff₀ rational]
    calc (n : ℚ) < 2 ^ ((Nat.log2 n : Int) + 1) := nHigh
      _ = 2 ^ (53 : Int) * 2 ^ guess * 2 ^ (Nat.log2 d : Int) := by
        rw [← zpow_add₀ two_ne_zero, ← zpow_add₀ two_ne_zero]
        congr 1
        omega
      _ ≤ 2 ^ (53 : Int) * 2 ^ guess * d := by gcongr
  obtain ⟨denominator, scaled⟩ := scaleDown_spec n proper guess
  have small : (scaleDown n d guess).1 / (scaleDown n d guess).2 < powerOfTwo 52 ↔
      (n / d : ℚ) < 2 ^ (52 : Int) * 2 ^ guess := by
    have unit : (0 : ℚ) < 2 ^ guess := by positivity
    have bound : (0 : ℚ) < (scaleDown n d guess).2 := by exact_mod_cast denominator
    rw [Nat.div_lt_iff_lt_mul denominator, ← div_lt_iff₀ unit, ← scaled, div_lt_iff₀ bound]
    simp only [powerOfTwo_eq]
    norm_cast
  have chosen : exponentFor n d = max (if (scaleDown n d guess).1 / (scaleDown n d guess).2 <
      powerOfTwo 52 then guess - 1 else guess) minExponent := rfl
  rw [chosen]
  split
  · rename_i less
    have half : (2 : ℚ) ^ guess = 2 ^ (guess - 1) * 2 := by
      rw [← zpow_add_one₀ two_ne_zero, sub_add_cancel]
    refine ⟨guess - 1, rfl, ?_, ?_⟩
    · rw [half] at below
      norm_num at below ⊢
      linarith
    · have bound := small.mp less
      rw [half] at bound
      norm_num at bound ⊢
      linarith
  · rename_i least
    exact ⟨guess, rfl, not_lt.mp fun less => least (small.mpr less), above⟩

theorem exponent_le {x : ℚ} {e f : Int} (low : 2 ^ (52 : Int) * 2 ^ e ≤ x)
    (high : x < 2 ^ (53 : Int) * 2 ^ f) : e ≤ f := by
  have powers := low.trans_lt high
  rw [← zpow_add₀ two_ne_zero, ← zpow_add₀ two_ne_zero,
    zpow_lt_zpow_iff_right₀ one_lt_two] at powers
  omega

theorem exponentFor_eq {n d : Nat} {e : Int} (positive : 0 < n) (proper : 0 < d)
    (low : 2 ^ (52 : Int) * 2 ^ e ≤ (n / d : ℚ)) (high : (n / d : ℚ) < 2 ^ (53 : Int) * 2 ^ e) :
    exponentFor n d = max e minExponent := by
  obtain ⟨f, chosen, above, below⟩ := exponentFor_spec positive proper
  rw [chosen, le_antisymm (exponent_le above high) (exponent_le low below)]

theorem exponentFor_of_lt {n d : Nat} (positive : 0 < n) (proper : 0 < d)
    (small : (n / d : ℚ) < 2 ^ (52 : Int) * 2 ^ minExponent) : exponentFor n d = minExponent := by
  obtain ⟨f, chosen, above, -⟩ := exponentFor_spec positive proper
  have less : f < minExponent := by
    have powers := above.trans_lt small
    rwa [mul_lt_mul_iff_right₀ (by positivity), zpow_lt_zpow_iff_right₀ one_lt_two] at powers
  rw [chosen, max_eq_right less.le]

/-! ## The doubles that rounding produces -/

structure Canonical (significand : Nat) (exponent : Int) : Prop where
  short : significand < 2 ^ 53
  least : minExponent ≤ exponent
  greatest : exponent ≤ maxExponent
  full : 2 ^ 52 ≤ significand ∨ exponent = minExponent

def packed (negative : Bool) (significand : Nat) (exponent : Int) : Binary64 :=
  if maxExponent < exponent then .infinite negative else .finite negative significand exponent

def significandAt (n d : Nat) (exponent : Int) : Nat :=
  divNearestEven (scaleDown n d exponent).1 (scaleDown n d exponent).2

theorem ofRatio_packed (negative : Bool) {n d : Nat} (positive : 0 < n) :
    ofRatio negative n d =
      if significandAt n d (exponentFor n d) = 2 ^ 53 then
        packed negative (2 ^ 52) (exponentFor n d + 1)
      else packed negative (significandAt n d (exponentFor n d)) (exponentFor n d) := by
  have some : n ≠ 0 := positive.ne'
  by_cases carry : significandAt n d (exponentFor n d) = 2 ^ 53
  · have same : divNearestEven (scaleDown n d (exponentFor n d)).1
        (scaleDown n d (exponentFor n d)).2 = powerOfTwo 53 := carry
    simp only [ofRatio, some, same, carry, ↓reduceIte]
    rfl
  · have other : divNearestEven (scaleDown n d (exponentFor n d)).1
        (scaleDown n d (exponentFor n d)).2 ≠ powerOfTwo 53 := carry
    simp only [ofRatio, some, other, carry, ↓reduceIte]
    rfl

theorem significandAt_eq {n d k : Nat} {e : Int} (proper : 0 < d)
    (low : (k : ℚ) - 1 / 2 ≤ n / d / 2 ^ e) (high : (n / d / 2 ^ e : ℚ) ≤ k + 1 / 2)
    (tie : k % 2 = 0 ∨ ((k : ℚ) - 1 / 2 < n / d / 2 ^ e ∧ (n / d / 2 ^ e : ℚ) < k + 1 / 2)) :
    significandAt n d e = k := by
  obtain ⟨denominator, scaled⟩ := scaleDown_spec n proper e
  rw [← scaled] at low high tie
  exact divNearestEven_eq denominator low high tie

end Binary64

def RoundingInterval.Holds (i : RoundingInterval) (x : ℚ) : Prop :=
  if i.closed then i.low * 2 ^ i.exponent ≤ x ∧ x ≤ i.high * 2 ^ i.exponent
  else i.low * 2 ^ i.exponent < x ∧ x < i.high * 2 ^ i.exponent

namespace Binary64

/-- The lower end of the interval of a double, where only the least one of a power of two is nearer
to it. -/
theorem low_ofDouble {m : Nat} (positive : 0 < m) (e : Int) :
    ((RoundingInterval.ofDouble m e).low : ℚ) =
      4 * m - if m = 2 ^ 52 ∧ minExponent < e then 1 else 2 := by
  have low : (RoundingInterval.ofDouble m e).low =
      4 * m - if m = 2 ^ 52 ∧ minExponent < e then 1 else 2 := by
    unfold RoundingInterval.ofDouble
    simp only [Bool.and_eq_true, decide_eq_true_eq]
    rfl
  rw [low, Nat.cast_sub (by split <;> omega)]
  split <;> push_cast <;> rfl

theorem unit_ofDouble (m : Nat) (e : Int) :
    (2 : ℚ) ^ (RoundingInterval.ofDouble m e).exponent = 2 ^ e / 4 := by
  change (2 : ℚ) ^ (e - 2) = 2 ^ e / 4
  rw [zpow_sub₀ two_ne_zero]
  norm_num

theorem high_ofDouble (m : Nat) (e : Int) :
    ((RoundingInterval.ofDouble m e).high : ℚ) = 4 * m + 2 := by
  change ((4 * m + 2 : Nat) : ℚ) = 4 * m + 2
  push_cast
  rfl

/-- A rational in the interval of a double is not further from it than half a unit of its last
place, below a power of two not further than a quarter. -/
theorem bounds_of_holds {m : Nat} {e : Int} {x : ℚ} (positive : 0 < m)
    (holds : (RoundingInterval.ofDouble m e).Holds x) :
    (m : ℚ) - 1 / 2 ≤ x / 2 ^ e ∧ x / 2 ^ e ≤ m + 1 / 2 ∧
      (m % 2 = 0 ∨ (m : ℚ) - 1 / 2 < x / 2 ^ e ∧ x / 2 ^ e < m + 1 / 2) ∧
      (m = 2 ^ 52 → minExponent < e → (m : ℚ) - 1 / 4 ≤ x / 2 ^ e) := by
  have unit : (0 : ℚ) < 2 ^ e := by positivity
  have closed : (RoundingInterval.ofDouble m e).closed = true ↔ m % 2 = 0 := decide_eq_true_iff
  unfold RoundingInterval.Holds at holds
  rw [unit_ofDouble, high_ofDouble, low_ofDouble positive] at holds
  rw [le_div_iff₀ unit, div_le_iff₀ unit, lt_div_iff₀ unit, div_lt_iff₀ unit, le_div_iff₀ unit]
  split at holds
  · rename_i even
    split at holds
    · exact ⟨by linarith, by linarith, .inl (closed.mp even), fun _ _ => by linarith⟩
    · rename_i plain
      exact ⟨by linarith, by linarith, .inl (closed.mp even),
        fun full more => absurd ⟨full, more⟩ plain⟩
  · rename_i odd
    have plain : ¬ (m = 2 ^ 52 ∧ minExponent < e) := by
      rintro ⟨rfl, -⟩
      exact odd (closed.mpr rfl)
    rw [if_neg plain] at holds
    exact ⟨by linarith, by linarith, .inr ⟨by linarith, by linarith⟩,
      fun full more => absurd ⟨full, more⟩ plain⟩

/-- Every fraction in the rounding interval of a double is rounded to this double. -/
theorem ofRatio_eq {m n d : Nat} {e : Int} (canonical : Canonical m e) (some : 0 < m)
    (positive : 0 < n) (proper : 0 < d)
    (holds : (RoundingInterval.ofDouble m e).Holds (n / d)) (negative : Bool) :
    ofRatio negative n d = .finite negative m e := by
  obtain ⟨low, high, tie, power⟩ := bounds_of_holds some holds
  have unit : (0 : ℚ) < 2 ^ e := by positivity
  have result : packed negative m e = .finite negative m e :=
    if_neg (not_lt.mpr canonical.greatest)
  have direct (chosen : exponentFor n d = e) : ofRatio negative n d = .finite negative m e := by
    rw [ofRatio_packed negative positive, chosen, significandAt_eq proper low high tie,
      if_neg canonical.short.ne, result]
  have short : (m : ℚ) + 1 ≤ 2 ^ 53 := by exact_mod_cast canonical.short
  rcases lt_or_ge ((n / d : ℚ) / 2 ^ e) (2 ^ 52) with less | full
  · rcases eq_or_lt_of_le canonical.least with last | more
    · -- Among the smallest doubles the exponent is the least one for any significand.
      have small : (n / d : ℚ) < 2 ^ (52 : Int) * 2 ^ minExponent := by
        rw [div_lt_iff₀ unit] at less
        rw [last]
        exact_mod_cast less
      exact direct ((exponentFor_of_lt positive proper small).trans last)
    · -- Just below a power of two the exponent is one less, and rounding carries over.
      have large : 2 ^ 52 ≤ m := canonical.full.resolve_right more.ne'
      have equal : m = 2 ^ 52 := by
        have bound : (m : ℚ) < 2 ^ 52 + 1 := by linarith
        have : m < 2 ^ 52 + 1 := by exact_mod_cast bound
        omega
      have near := power equal more
      have half : (2 : ℚ) ^ e = 2 ^ (e - 1) * 2 := by
        rw [← zpow_add_one₀ two_ne_zero, sub_add_cancel]
      have below : (0 : ℚ) < 2 ^ (e - 1) := by positivity
      have value : (n / d : ℚ) / 2 ^ (e - 1) = n / d / 2 ^ e * 2 := by
        rw [half]
        field_simp
      subst equal
      push_cast at near
      have chosen : exponentFor n d = e - 1 := by
        rw [exponentFor_eq (e := e - 1) positive proper, max_eq_left (by omega)]
        · rw [← le_div_iff₀ below, value]
          norm_num
          linarith
        · rw [← div_lt_iff₀ below, value]
          norm_num
          linarith
      have carry : significandAt n d (e - 1) = 2 ^ 53 := by
        refine significandAt_eq proper ?_ ?_ (.inl rfl)
        · rw [value]
          push_cast
          linarith
        · rw [value]
          push_cast
          linarith
      rw [ofRatio_packed negative positive, chosen, if_pos carry, sub_add_cancel, result]
  · refine direct ?_
    rw [exponentFor_eq (e := e) positive proper, max_eq_left canonical.least]
    · rw [← le_div_iff₀ unit]
      exact_mod_cast full
    · rw [← div_lt_iff₀ unit]
      norm_num at short ⊢
      linarith

/-! ## Decimals -/

theorem powers_lt {a b : Nat} (less : powerOfTwo a < powerOfTen b) :
    (2 : ℚ) ^ (a : Int) < 10 ^ (b : Int) ∧ (10 : ℚ) ^ (-b : Int) < 2 ^ (-a : Int) := by
  have rational : (2 : ℚ) ^ a < 10 ^ b := by exact_mod_cast less
  rw [zpow_neg, zpow_neg, zpow_natCast, zpow_natCast,
    inv_lt_inv₀ (by positivity) (by positivity)]
  exact ⟨rational, rational⟩

/-- A rational in the interval of a double is neither tiny nor huge. -/
theorem size_of_holds {m : Nat} {e : Int} {x : ℚ} (canonical : Canonical m e) (some : 0 < m)
    (holds : (RoundingInterval.ofDouble m e).Holds x) :
    (10 : ℚ) ^ (-324 : Int) < x ∧ x < 10 ^ (309 : Int) := by
  obtain ⟨low, high, -⟩ := bounds_of_holds some holds
  have unit : (0 : ℚ) < 2 ^ e := by positivity
  have one : (1 : ℚ) ≤ m := by exact_mod_cast some
  have short : (m : ℚ) + 1 ≤ 2 ^ 53 := by exact_mod_cast canonical.short
  rw [le_div_iff₀ unit] at low
  rw [div_le_iff₀ unit] at high
  constructor
  · have least : (2 : ℚ) ^ minExponent ≤ 2 ^ e := zpow_le_zpow_right₀ one_le_two canonical.least
    have half : (2 : ℚ) ^ (-(1075 : Nat) : Int) * 2 = 2 ^ minExponent :=
      (zpow_add_one₀ two_ne_zero _).symm
    have tiny := (powers_lt (a := 1075) (b := 324) (by decide +kernel)).2
    refine tiny.trans_le ?_
    nlinarith
  · have greatest : (2 : ℚ) ^ e ≤ 2 ^ maxExponent :=
      zpow_le_zpow_right₀ one_le_two canonical.greatest
    have huge := (powers_lt (a := 1024) (b := 309) (by decide +kernel)).1
    have top : (2 : ℚ) ^ (53 : Int) * 2 ^ maxExponent = 2 ^ ((1024 : Nat) : Int) :=
      (zpow_add₀ two_ne_zero _ _).symm
    refine lt_of_le_of_lt ?_ huge
    rw [← top]
    refine high.trans (mul_le_mul ?_ greatest unit.le (by positivity))
    norm_num at short ⊢
    linarith

/-- Every decimal in the rounding interval of a double is rounded to this double. -/
theorem ofDecimal_eq {m digits : Nat} {e exponent : Int} (canonical : Canonical m e) (some : 0 < m)
    (holds : (RoundingInterval.ofDouble m e).Holds (digits * 10 ^ exponent)) (negative : Bool) :
    ofDecimal negative digits exponent = .finite negative m e := by
  obtain ⟨tiny, huge⟩ := size_of_holds canonical some holds
  have unit : (0 : ℚ) < 10 ^ exponent := by positivity
  have positive : 0 < digits := by
    rcases Nat.eq_zero_or_pos digits with rfl | positive
    · rw [Nat.cast_zero, zero_mul] at tiny
      exact absurd tiny (not_lt.mpr (by positivity))
    · exact positive
  obtain ⟨least, greatest⟩ := length_toDigits_bounds positive
  have upper : ((Nat.toDigits 10 digits).length : Int) + exponent ≤ 309 := by
    have bound := (mul_le_mul_of_nonneg_right least unit.le).trans_lt huge
    rw [← zpow_add₀ (by norm_num), zpow_lt_zpow_iff_right₀ (by norm_num)] at bound
    omega
  have lower : -324 < ((Nat.toDigits 10 digits).length : Int) + exponent := by
    have bound := tiny.trans (mul_lt_mul_of_pos_right greatest unit)
    rwa [← zpow_add₀ (by norm_num), zpow_lt_zpow_iff_right₀ (by norm_num)] at bound
  unfold ofDecimal
  rw [if_neg positive.ne']
  dsimp only
  rw [if_neg (by omega), if_neg (by omega)]
  split
  · rename_i up
    obtain ⟨k, rfl⟩ := Int.eq_ofNat_of_zero_le up
    refine ofRatio_eq canonical some (by rw [powerOfTen_eq]; positivity) one_pos ?_ negative
    rw [powerOfTen_eq, Int.toNat_natCast]
    push_cast
    rwa [div_one, ← zpow_natCast]
  · rename_i down
    obtain ⟨k, rfl⟩ : ∃ k : Nat, exponent = -k := ⟨(-exponent).toNat, by omega⟩
    refine ofRatio_eq canonical some positive (by rw [powerOfTen_eq]; positivity) ?_ negative
    rw [powerOfTen_eq, neg_neg, Int.toNat_natCast]
    push_cast
    rwa [div_eq_mul_inv, ← zpow_natCast, ← zpow_neg]

/-! ## Rounding produces canonical doubles -/

def IsCanonical : Binary64 → Prop
  | .finite _ significand exponent => Canonical significand exponent
  | _ => True

theorem isCanonical_signedZero (negative : Bool) : (signedZero negative).IsCanonical where
  short := by norm_num
  least := le_rfl
  greatest := by decide
  full := .inr rfl

theorem isCanonical_packed {m : Nat} {e : Int} (short : m < 2 ^ 53) (least : minExponent ≤ e)
    (full : 2 ^ 52 ≤ m ∨ e = minExponent) (negative : Bool) :
    (packed negative m e).IsCanonical := by
  unfold packed
  split
  · trivial
  · rename_i greatest
    exact ⟨short, least, not_lt.mp greatest, full⟩

theorem significandAt_bounds (n : Nat) {d : Nat} (proper : 0 < d) (e : Int) :
    (∀ k : Nat, (n / d / 2 ^ e : ℚ) < k → significandAt n d e ≤ k) ∧
      ∀ k : Nat, (k : ℚ) ≤ n / d / 2 ^ e → k ≤ significandAt n d e := by
  obtain ⟨denominator, scaled⟩ := scaleDown_spec n proper e
  have rational : (0 : ℚ) < (scaleDown n d e).2 := by exact_mod_cast denominator
  have least : (scaleDown n d e).1 / (scaleDown n d e).2 ≤ significandAt n d e := by
    unfold significandAt divNearestEven
    grind
  have greatest : significandAt n d e ≤ (scaleDown n d e).1 / (scaleDown n d e).2 + 1 := by
    unfold significandAt divNearestEven
    grind
  constructor
  · intro k less
    rw [← scaled, div_lt_iff₀ rational] at less
    have quotient : (scaleDown n d e).1 / (scaleDown n d e).2 < k :=
      (Nat.div_lt_iff_lt_mul denominator).mpr (by exact_mod_cast less)
    omega
  · intro k most
    rw [← scaled, le_div_iff₀ rational] at most
    have quotient : k ≤ (scaleDown n d e).1 / (scaleDown n d e).2 :=
      (Nat.le_div_iff_mul_le denominator).mpr (by exact_mod_cast most)
    omega

theorem isCanonical_ofRatio (negative : Bool) (n : Nat) {d : Nat} (proper : 0 < d) :
    (ofRatio negative n d).IsCanonical := by
  rcases Nat.eq_zero_or_pos n with rfl | positive
  · exact isCanonical_signedZero negative
  obtain ⟨e, chosen, low, high⟩ := exponentFor_spec positive proper
  rw [ofRatio_packed negative positive, chosen]
  have least : minExponent ≤ max e minExponent := le_max_right _ _
  have bounds := significandAt_bounds n proper (max e minExponent)
  have greatest : significandAt n d (max e minExponent) ≤ 2 ^ 53 := by
    refine bounds.1 _ ?_
    rw [div_lt_iff₀ (by positivity)]
    calc (n / d : ℚ) < 2 ^ (53 : Int) * 2 ^ e := high
      _ ≤ (2 ^ 53 : Nat) * 2 ^ max e minExponent := by
        push_cast
        have powers : (2 : ℚ) ^ e ≤ 2 ^ max e minExponent :=
          zpow_le_zpow_right₀ one_le_two (le_max_left _ _)
        exact mul_le_mul_of_nonneg_left powers (by norm_num)
  have full : 2 ^ 52 ≤ significandAt n d (max e minExponent) ∨ max e minExponent = minExponent := by
    rcases le_total e minExponent with small | large
    · exact .inr (max_eq_right small)
    · refine .inl (bounds.2 _ ?_)
      rw [max_eq_left large, le_div_iff₀ (by positivity)]
      exact_mod_cast low
  split
  · exact isCanonical_packed (by norm_num) (by omega) (.inl le_rfl) negative
  · rename_i carry
    exact isCanonical_packed (lt_of_le_of_ne greatest carry) least full negative

theorem isCanonical_ofDecimal (negative : Bool) (digits : Nat) (exponent : Int) :
    (ofDecimal negative digits exponent).IsCanonical := by
  unfold ofDecimal
  split
  · exact isCanonical_signedZero negative
  · dsimp only
    split
    · trivial
    · split
      · exact isCanonical_signedZero negative
      · split
        · exact isCanonical_ofRatio negative _ one_pos
        · refine isCanonical_ofRatio negative _ ?_
          rw [powerOfTen_eq]
          positivity

end Binary64

end FlowCorpus.Number
