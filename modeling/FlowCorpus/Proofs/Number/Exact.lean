import FlowCorpus.Proofs.Number.Rounding

/-!
# The numbers that doubles stand for

A finite double stands for a rational. The double nearest to a fraction depends only on the rational
that the fraction is. Natural numbers below `2 ^ 53` are doubles, and a quotient of two of them is
rounded by at most one part in `2 ^ 53`.
-/

set_option autoImplicit false

namespace FlowCorpus.Number

theorem divNearestEven_mul (n d : Nat) {k : Nat} (positive : 0 < k) :
    divNearestEven (n * k) (d * k) = divNearestEven n d := by
  have twice : 2 * (n % d * k) = 2 * (n % d) * k := (Nat.mul_assoc 2 _ k).symm
  unfold divNearestEven
  dsimp only
  rw [Nat.mul_div_mul_right n d positive, Nat.mul_mod_mul_right, twice]
  simp only [Nat.mul_lt_mul_right positive]

namespace Binary64

def toRat : Binary64 → ℚ
  | .finite negative significand exponent => signed negative significand * 2 ^ exponent
  | _ => 0

def ofRat (q : ℚ) : Binary64 :=
  ofRatio (q < 0) q.num.natAbs q.den

/-! ## Equal fractions -/

theorem scaleDown_mul (n d k : Nat) (exponent : Int) :
    scaleDown (n * k) (d * k) exponent =
      ((scaleDown n d exponent).1 * k, (scaleDown n d exponent).2 * k) := by
  unfold scaleDown
  split
  · rw [Nat.mul_right_comm]
  · rw [Nat.mul_right_comm]

variable {n d : Nat}

theorem exponentFor_mul (positive : 0 < n) (proper : 0 < d) {k : Nat} (more : 0 < k) :
    exponentFor (n * k) (d * k) = exponentFor n d := by
  obtain ⟨e, chosen, low, high⟩ := exponentFor_spec positive proper
  have nonzero : (k : ℚ) ≠ 0 := by exact_mod_cast more.ne'
  have same : ((n * k : Nat) / (d * k : Nat) : ℚ) = n / d := by
    push_cast
    exact mul_div_mul_right _ _ nonzero
  rw [chosen]
  refine exponentFor_eq (Nat.mul_pos positive more) (Nat.mul_pos proper more) ?_ ?_
  · rwa [same]
  · rwa [same]

theorem ofRatio_mul (negative : Bool) (n : Nat) (proper : 0 < d) {k : Nat} (more : 0 < k) :
    ofRatio negative (n * k) (d * k) = ofRatio negative n d := by
  rcases Nat.eq_zero_or_pos n with rfl | positive
  · rw [Nat.zero_mul]
    rfl
  · have significand (e : Int) : significandAt (n * k) (d * k) e = significandAt n d e := by
      unfold significandAt
      rw [scaleDown_mul]
      exact divNearestEven_mul _ _ more
    rw [ofRatio_packed negative positive, ofRatio_packed negative (Nat.mul_pos positive more),
      exponentFor_mul positive proper more, significand]

/-- Fractions that are the same rational have the same double. -/
theorem ofRatio_congr (negative : Bool) {m c : Nat} (proper : 0 < d) (other : 0 < c)
    (same : n * c = m * d) : ofRatio negative n d = ofRatio negative m c :=
  calc ofRatio negative n d
      = ofRatio negative (n * c) (d * c) := (ofRatio_mul negative n proper other).symm
    _ = ofRatio negative (m * d) (c * d) := by rw [same, Nat.mul_comm d c]
    _ = ofRatio negative m c := ofRatio_mul negative m other proper

theorem ofRat_div (n : Nat) (proper : 0 < d) : ofRat (n / d) = ofRatio false n d := by
  have least : (0 : ℚ) ≤ n / d := by positivity
  have nonzero : (d : ℚ) ≠ 0 := by exact_mod_cast proper.ne'
  have fraction : (((n : ℚ) / d).num.natAbs : ℚ) = n / d * ((n : ℚ) / d).den := by
    have sign : (((n : ℚ) / d).num.natAbs : Int) = ((n : ℚ) / d).num :=
      Int.natAbs_of_nonneg (Rat.num_nonneg.mpr least)
    rw [Rat.mul_den_eq_num, ← sign]
    rfl
  unfold ofRat
  rw [decide_eq_false (not_lt.mpr least)]
  refine ofRatio_congr false (Rat.den_pos _) proper ?_
  rw [div_mul_eq_mul_div, eq_div_iff nonzero] at fraction
  exact_mod_cast fraction

/-! ## Errors of rounding -/

theorem significandAt_near (n : Nat) (proper : 0 < d) (e : Int) :
    |(significandAt n d e : ℚ) - n / d / 2 ^ e| ≤ 1 / 2 := by
  obtain ⟨denominator, scaled⟩ := scaleDown_spec n proper e
  have rational : (0 : ℚ) < (scaleDown n d e).2 := by exact_mod_cast denominator
  obtain ⟨low, high⟩ := divNearestEven_near (scaleDown n d e).1 denominator
  have below : ((scaleDown n d e).1 / (scaleDown n d e).2 : ℚ) ≤ significandAt n d e + 1 / 2 := by
    have bound : (2 * (scaleDown n d e).1 : ℚ) ≤
        2 * (scaleDown n d e).2 * significandAt n d e + (scaleDown n d e).2 := by
      exact_mod_cast low
    rw [div_le_iff₀ rational]
    linarith
  have above : (significandAt n d e : ℚ) - 1 / 2 ≤
      (scaleDown n d e).1 / (scaleDown n d e).2 := by
    have bound : (2 * (scaleDown n d e).2 * significandAt n d e : ℚ) ≤
        2 * (scaleDown n d e).1 + (scaleDown n d e).2 := by
      exact_mod_cast high
    rw [le_div_iff₀ rational]
    linarith
  rw [← scaled, abs_le]
  constructor <;> linarith

theorem toRat_packed {m : Nat} {e : Int} (greatest : e ≤ maxExponent) :
    (packed false m e).toRat = m * 2 ^ e := by
  rw [packed, if_neg (not_lt.mpr greatest)]
  rfl

/-- A fraction that is not too large becomes its significand at its exponent, also when rounding
carries over. -/
theorem toRat_ofRatio (positive : 0 < n) (bounded : exponentFor n d < maxExponent) :
    (ofRatio false n d).toRat =
      significandAt n d (exponentFor n d) * 2 ^ exponentFor n d := by
  rw [ofRatio_packed false positive]
  split
  · rename_i carry
    rw [toRat_packed (by omega), carry, zpow_add_one₀ two_ne_zero]
    norm_num
    ring
  · exact toRat_packed bounded.le

theorem toRat_ofRatio_zero (d : Nat) : (ofRatio false 0 d).toRat = 0 := by
  simp [ofRatio, signedZero, toRat, signed]

/-- A quotient of natural numbers below `2 ^ 53` is rounded by at most one part in `2 ^ 53`. -/
theorem toRat_ofRatio_near (proper : 0 < d) (small : n < 2 ^ 53) (few : d < 2 ^ 53) :
    |(ofRatio false n d).toRat - n / d| ≤ n / d / 2 ^ 53 := by
  rcases Nat.eq_zero_or_pos n with rfl | positive
  · rw [toRat_ofRatio_zero, Nat.cast_zero, zero_div, zero_div, sub_zero, abs_zero]
  have one_le_n : (1 : ℚ) ≤ n := by exact_mod_cast positive
  have one_le_d : (1 : ℚ) ≤ d := by exact_mod_cast proper
  have n_lt : (n : ℚ) < 2 ^ (53 : Int) := by exact_mod_cast small
  have d_le : (d : ℚ) ≤ 2 ^ (53 : Int) := by exact_mod_cast few.le
  have rational : (0 : ℚ) < d := by exact_mod_cast proper
  -- The exponent is neither cut off at the least one nor so large that rounding overflows.
  obtain ⟨e, chosen, low, high⟩ := exponentFor_spec positive proper
  have least : minExponent ≤ e := by
    refine exponent_le ?_ high
    rw [le_div_iff₀ rational]
    calc (2 : ℚ) ^ (52 : Int) * 2 ^ minExponent * d
        ≤ 2 ^ (52 : Int) * 2 ^ minExponent * 2 ^ (53 : Int) := by gcongr
      _ = 2 ^ (52 + minExponent + 53) := by
          rw [zpow_add₀ two_ne_zero, zpow_add₀ two_ne_zero]
      _ ≤ 1 := zpow_le_one_of_nonpos₀ one_le_two (by decide)
      _ ≤ n := one_le_n
  have greatest : e ≤ 0 := by
    refine exponent_le low ?_
    rw [zpow_zero, mul_one]
    exact (div_le_self (Nat.cast_nonneg n) one_le_d).trans_lt n_lt
  rw [max_eq_left least] at chosen
  have unit : (0 : ℚ) < 2 ^ e := by positivity
  have near := significandAt_near n proper e
  have value : (ofRatio false n d).toRat = significandAt n d e * 2 ^ e := by
    rw [toRat_ofRatio positive (by rw [chosen]; exact greatest.trans_lt (by decide)), chosen]
  calc |(ofRatio false n d).toRat - n / d|
      = |((significandAt n d e : ℚ) - n / d / 2 ^ e) * 2 ^ e| := by
        rw [value, sub_mul, div_mul_cancel₀ _ unit.ne']
    _ = |(significandAt n d e : ℚ) - n / d / 2 ^ e| * 2 ^ e := by
        rw [abs_mul, abs_of_pos unit]
    _ ≤ 1 / 2 * 2 ^ e := by gcongr
    _ ≤ n / d / 2 ^ 53 := by
        rw [le_div_iff₀ (by norm_num)]
        refine le_trans (le_of_eq ?_) low
        norm_num
        ring

/-- Natural numbers with at most fifty-three digits are doubles. -/
theorem toRat_ofNat {n : Nat} (small : n < 2 ^ 53) : (ofNat n).toRat = n := by
  rcases Nat.eq_zero_or_pos n with rfl | positive
  · exact (toRat_ofRatio_zero 1).trans Nat.cast_zero.symm
  obtain ⟨e, chosen, low, -⟩ := exponentFor_spec positive one_pos
  have greatest : max e minExponent ≤ 0 := by
    refine max_le (exponent_le low ?_) (by decide)
    rw [zpow_zero, mul_one, Nat.cast_one, div_one]
    exact_mod_cast small
  obtain ⟨k, shift⟩ : ∃ k : Nat, max e minExponent = -k := ⟨(-max e minExponent).toNat, by omega⟩
  have value : ((n : ℚ) / (1 : Nat) / 2 ^ (-k : Int)) = (n * 2 ^ k : Nat) := by
    rw [Nat.cast_one, div_one, zpow_neg, zpow_natCast, div_inv_eq_mul]
    push_cast
    rfl
  have exact : significandAt n 1 (-k) = n * 2 ^ k := by
    refine significandAt_eq one_pos ?_ ?_ (.inr ⟨?_, ?_⟩) <;> rw [value] <;> linarith
  rw [ofNat, toRat_ofRatio positive (by rw [chosen]; exact greatest.trans_lt (by decide)), chosen,
    shift, exact]
  push_cast
  rw [zpow_neg, zpow_natCast, mul_inv_cancel_right₀ (by positivity)]

/-! ## Integers -/

section

variable (negative : Bool) (m k : Nat)

theorem signed_mul : signed negative (m * k) = signed negative m * k := by
  cases negative with
  | true => exact (congrArg Neg.neg (Int.natCast_mul m k)).trans (Int.neg_mul _ _).symm
  | false => exact Int.natCast_mul m k

theorem natAbs_signed : (signed negative m).natAbs = m := by
  cases negative with
  | true => exact Int.natAbs_neg m
  | false => rfl

theorem toRat_scaledUp : (finite negative m k).toRat = signed negative (m * 2 ^ k) := by
  rw [signed_mul, toRat, zpow_natCast]
  push_cast
  rfl

theorem toRat_scaledDown_iff (n : Int) :
    (finite negative m (-k)).toRat = n ↔ signed negative m = n * 2 ^ k := by
  rw [toRat, zpow_neg, zpow_natCast, ← div_eq_mul_inv, div_eq_iff (by positivity)]
  norm_cast

theorem signed_eq_mul_iff {d : Nat} (positive : 0 < d) (n : Int) :
    signed negative m = n * d ↔ m % d = 0 ∧ signed negative (m / d) = n := by
  constructor
  · intro product
    have magnitude : m = n.natAbs * d := by
      have sizes := congrArg Int.natAbs product
      rwa [natAbs_signed, Int.natAbs_mul, Int.natAbs_natCast] at sizes
    have exact : m % d = 0 := by rw [magnitude, Nat.mul_mod_left]
    refine ⟨exact, ?_⟩
    apply Int.eq_of_mul_eq_mul_right (show (d : Int) ≠ 0 by omega)
    rw [← signed_mul, Nat.div_mul_cancel (Nat.dvd_of_mod_eq_zero exact), product]
  · rintro ⟨exact, rfl⟩
    rw [← signed_mul, Nat.div_mul_cancel (Nat.dvd_of_mod_eq_zero exact)]

end

/-- A double is without a fraction and has an integer as its integer part just when it stands for
this integer. -/
theorem isIntegral_and_toInt?_iff (x : Binary64) (n : Int) :
    (x.isIntegral = true ∧ x.toInt? = some n) ↔ (x.isFinite = true ∧ x.toRat = n) := by
  cases x with
  | nan | infinite => simp [isIntegral, isFinite]
  | finite negative m e =>
      have part : (finite negative m e).toInt? = some (signed negative (truncated m e)) := rfl
      have finite : (finite negative m e).isFinite = true := rfl
      rw [part, Option.some_inj, finite, eq_self, true_and]
      rcases le_or_gt 0 e with least | below
      · obtain ⟨k, rfl⟩ := Int.eq_ofNat_of_zero_le least
        have integral : (Binary64.finite negative m k).isIntegral = true := by simp [isIntegral]
        have whole : truncated m k = m * 2 ^ k := by
          rw [truncated, if_pos least, Int.toNat_natCast, powerOfTwo_eq]
        rw [toRat_scaledUp, integral, whole, eq_self, true_and]
        norm_cast
      · obtain ⟨k, rfl⟩ : ∃ k : Nat, e = -k := ⟨(-e).toNat, by omega⟩
        have integral : (Binary64.finite negative m (-k)).isIntegral = (m % 2 ^ k == 0) := by
          rw [isIntegral, decide_eq_false (by omega), Bool.false_or, neg_neg, Int.toNat_natCast,
            powerOfTwo_eq]
        have whole : truncated m (-k) = m / 2 ^ k := by
          rw [truncated, if_neg (by omega), neg_neg, Int.toNat_natCast, powerOfTwo_eq]
        have scaled := signed_eq_mul_iff negative m (show 0 < 2 ^ k by positivity) n
        push_cast at scaled
        rw [toRat_scaledDown_iff, integral, whole, beq_iff_eq]
        exact scaled.symm

end Binary64

end FlowCorpus.Number
