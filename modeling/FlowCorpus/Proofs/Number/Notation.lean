import FlowCorpus.Number.Notation

/-!
# Decimal texts of integers

The decimal text of an integer has digits only, a sign in front apart, and no other integer has
it.
-/

set_option autoImplicit false

namespace FlowCorpus.Number

theorem isDigit_of_mem_natDigits {n : Nat} {c : Char} (member : c ∈ natDigits n) : c.isDigit :=
  Nat.isDigit_of_mem_toDigits (by decide) (by decide) member

theorem natDigits_injective {m n : Nat} (same : natDigits m = natDigits n) : m = n := by
  have readBack (k : Nat) : Nat.ofDigitChars 10 (natDigits k) 0 = k :=
    Nat.ofDigitChars_ten_toDigits
  rw [← readBack m, ← readBack n, same]

theorem mem_intText {n : Int} {c : Char} (member : c ∈ (intText n).toList) :
    c = '-' ∨ c.isDigit := by
  unfold intText at member
  rw [String.toList_ofList] at member
  split at member
  · rcases List.mem_cons.mp member with sign | digit
    · exact .inl sign
    · exact .inr (isDigit_of_mem_natDigits digit)
  · exact .inr (isDigit_of_mem_natDigits member)

theorem intText_injective {m n : Int} (same : intText m = intText n) : m = n := by
  have sign_ne (digits : List Char) (k : Nat) : '-' :: digits ≠ natDigits k := by
    intro equal
    have digit := isDigit_of_mem_natDigits (equal ▸ List.mem_cons_self : '-' ∈ natDigits k)
    exact absurd digit (by decide)
  have chars := congrArg String.toList same
  unfold intText at chars
  rw [String.toList_ofList, String.toList_ofList] at chars
  split at chars <;> split at chars
  · have magnitude := natDigits_injective (List.cons.inj chars).2
    omega
  · exact absurd chars (sign_ne _ _)
  · exact absurd chars.symm (sign_ne _ _)
  · have magnitude := natDigits_injective chars
    omega

end FlowCorpus.Number
