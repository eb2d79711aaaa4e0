import Mathlib
import FlowCorpus.Number.Numeral
import FlowCorpus.Proofs.Number.Notation

/-!
# Values of digits

What a run of decimal digits is worth, and that the digits of a natural number are worth this
number.
-/

set_option autoImplicit false

namespace FlowCorpus.Number

open FlowCorpus.Text

def AllDigits (s : List Char) : Prop :=
  ∀ c ∈ s, isDigit c = true

theorem isDigit_eq (c : Char) : isDigit c = c.isDigit := by
  rw [Bool.eq_iff_iff, Char.isDigit_iff_toNat]
  simp [isDigit]

theorem allDigits_append {s t : List Char} : AllDigits (s ++ t) ↔ AllDigits s ∧ AllDigits t :=
  List.forall_mem_append

theorem allDigits_zeros (count : Nat) : AllDigits (List.replicate count '0') := fun _ member => by
  rw [List.eq_of_mem_replicate member]
  rfl

theorem allDigits_natDigits (n : Nat) : AllDigits (natDigits n) := fun c member => by
  rw [isDigit_eq]
  exact isDigit_of_mem_natDigits member

theorem natDigits_ne_nil (n : Nat) : natDigits n ≠ [] :=
  List.ne_nil_of_length_pos Nat.length_toDigits_pos

theorem digitValue?_of_isDigit {c : Char} (digit : isDigit c = true) :
    digitValue? c = some (c.toNat - 0x30) ∧ c.toNat - 0x30 < 10 := by
  simp only [isDigit, Bool.and_eq_true, decide_eq_true_eq] at digit
  constructor
  · simp [digitValue?, digit]
  · omega

theorem foldl_digits (s : List Char) (value : Nat) :
    s.foldl (fun value c => value * 10 + (digitValue? c).getD 0) value =
      value * 10 ^ s.length + digitsValue s := by
  unfold digitsValue
  induction s generalizing value with
  | nil => simp
  | cons c s ih =>
      rw [List.foldl_cons, List.foldl_cons, ih, ih (0 * 10 + _), List.length_cons, pow_succ]
      ring

theorem digitsValue_append (s t : List Char) :
    digitsValue (s ++ t) = digitsValue s * 10 ^ t.length + digitsValue t := by
  rw [← foldl_digits]
  exact List.foldl_append

theorem digitsValue_zeros (count : Nat) : digitsValue (List.replicate count '0') = 0 := by
  induction count with
  | zero => rfl
  | succ count ih =>
      rw [List.replicate_succ', digitsValue_append, ih]
      rfl

theorem digitsValue_lt {s : List Char} (digits : AllDigits s) : digitsValue s < 10 ^ s.length := by
  induction s with
  | nil => exact one_pos
  | cons c s ih =>
      obtain ⟨value, small⟩ := digitValue?_of_isDigit (digits c List.mem_cons_self)
      have rest := ih fun d member => digits d (List.mem_cons_of_mem c member)
      have first : digitsValue [c] = c.toNat - 0x30 := by simp [digitsValue, value]
      rw [← List.singleton_append, digitsValue_append, first, List.length_append,
        List.length_singleton, pow_add, pow_one]
      have product : (c.toNat - 0x30) * 10 ^ s.length ≤ 9 * 10 ^ s.length :=
        Nat.mul_le_mul_right _ (by omega)
      omega

theorem digitsValue_natDigits (n : Nat) : digitsValue (natDigits n) = n := by
  have same (s : List Char) (digits : AllDigits s) (value : Nat) :
      s.foldl (fun value c => value * 10 + (digitValue? c).getD 0) value =
        Nat.ofDigitChars 10 s value := by
    induction s generalizing value with
    | nil => rfl
    | cons c s ih =>
        obtain ⟨found, -⟩ := digitValue?_of_isDigit (digits c List.mem_cons_self)
        rw [List.foldl_cons, ih fun d member => digits d (List.mem_cons_of_mem c member),
          Nat.ofDigitChars_cons, found, mul_comm]
        rfl
  exact (same _ (allDigits_natDigits n) 0).trans Nat.ofDigitChars_ten_toDigits

/-- A number of so many digits is as large as they allow. -/
theorem length_natDigits_le_iff {n count : Nat} (some : 0 < count) :
    (natDigits n).length ≤ count ↔ n < 10 ^ count :=
  Nat.length_toDigits_le_iff (by norm_num) some

theorem head?_natDigits {n : Nat} (positive : 0 < n) : (natDigits n).head? ≠ some '0' := by
  intro zero
  obtain ⟨rest, shape⟩ := List.head?_eq_some_iff.mp zero
  have digits : AllDigits rest := fun c member =>
    allDigits_natDigits n c (shape ▸ List.mem_cons_of_mem '0' member)
  have value : n = digitsValue rest := by
    rw [← digitsValue_natDigits n, shape, ← List.singleton_append, digitsValue_append]
    exact (congrArg (· + digitsValue rest) (Nat.zero_mul _)).trans (Nat.zero_add _)
  have small := digitsValue_lt digits
  rw [← value] at small
  rcases Nat.eq_zero_or_pos rest.length with none | some
  · rw [none] at small
    omega
  · have short := (length_natDigits_le_iff some).mpr small
    rw [shape, List.length_cons] at short
    omega

end FlowCorpus.Number
