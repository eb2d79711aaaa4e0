import FlowCorpus.Proofs.Number.Notation

/-!
# Characters of number texts

Which characters the text of a number is made of, and that the text of a double shows that it is
no integer.
-/

set_option autoImplicit false

namespace FlowCorpus.Number

theorem mem_positional {digits : List Char} {whole : Int} {c : Char}
    (member : c ∈ positional digits whole) : c ∈ ['0', '.'] ∨ c ∈ digits := by
  unfold positional at member
  split at member
  · simp only [List.mem_cons, List.mem_append, List.mem_replicate] at member
    grind
  · simp only [List.mem_cons, List.mem_append, List.mem_replicate] at member
    have taken := List.take_subset whole.toNat digits
    have dropped := List.drop_subset whole.toNat digits
    split at member <;> grind

theorem mem_exponential {l : Layout} {digits : List Char} {power : Int} {c : Char}
    (member : c ∈ exponential l digits power) :
    c ∈ ['0', '.', 'e', '-', '+'] ∨ c ∈ digits ∨ c ∈ natDigits power.natAbs := by
  have taken := List.take_subset 1 digits
  have dropped := List.drop_subset 1 digits
  unfold exponential at member
  split at member
  all_goals
    simp only [List.mem_cons, List.mem_append, List.mem_replicate] at member
    grind

def isNumeralChar (c : Char) : Bool :=
  c.isDigit || "+-.eNaInfity".toList.contains c

theorem isNumeralChar_of_isDigit {c : Char} (digit : c.isDigit) : isNumeralChar c = true := by
  simp [isNumeralChar, digit]

/-- Only the texts of doubles have such a character. -/
def isDoubleMark (c : Char) : Bool :=
  ".eNI".toList.contains c

theorem isNumeralChar_of_mem_magnitudeText {significand : Nat} {exponent : Int} {c : Char}
    (member : c ∈ magnitudeText layout significand exponent) : isNumeralChar c = true := by
  have digit {n : Nat} (inside : c ∈ natDigits n) : isNumeralChar c = true :=
    isNumeralChar_of_isDigit (isDigit_of_mem_natDigits inside)
  have marks : ∀ c ∈ ['0', '.', 'e', '-', '+'], isNumeralChar c = true :=
    List.all_eq_true.mp (by decide)
  unfold magnitudeText at member
  split at member
  · exact marks c (by grind)
  · dsimp only at member
    split at member
    · rcases mem_positional member with mark | inside
      · exact marks c (by grind)
      · exact digit inside
    · rcases mem_exponential member with mark | inside | inside
      · exact marks c mark
      · exact digit inside
      · exact digit inside

theorem isNumeralChar_of_mem_text {x : Binary64} {c : Char}
    (member : c ∈ (x.text ⟨"NaN", "Infinity"⟩).toList) : isNumeralChar c = true := by
  have words : ∀ word ∈ ["NaN", "Infinity", "-Infinity"],
      word.toList.all isNumeralChar = true := by decide
  cases x with
  | nan => exact List.all_eq_true.mp (words "NaN" (by simp)) c member
  | infinite negative =>
      cases negative with
      | true => exact List.all_eq_true.mp (words "-Infinity" (by simp)) c member
      | false => exact List.all_eq_true.mp (words "Infinity" (by simp)) c member
  | finite negative significand exponent =>
      simp only [Binary64.text, String.toList_ofList] at member
      split at member
      · rcases List.mem_cons.mp member with rfl | inside
        · rfl
        · exact isNumeralChar_of_mem_magnitudeText inside
      · exact isNumeralChar_of_mem_magnitudeText member

theorem point_mem_positional (digits : List Char) (whole : Int) :
    '.' ∈ positional digits whole := by
  unfold positional
  split <;> simp

theorem mark_mem_exponential (l : Layout) (digits : List Char) (power : Int) :
    'e' ∈ exponential l digits power := by
  simp [exponential]

/-- The text of a double has a character that no integer has. -/
theorem exists_mark_mem_text (x : Binary64) :
    ∃ c ∈ (x.text ⟨"NaN", "Infinity"⟩).toList, isDoubleMark c = true := by
  cases x with
  | nan => exact ⟨'N', by decide, rfl⟩
  | infinite negative => exact ⟨'I', by cases negative <;> decide, rfl⟩
  | finite negative significand exponent =>
      have marked : ∃ c ∈ magnitudeText layout significand exponent, isDoubleMark c = true := by
        unfold magnitudeText
        split
        · exact ⟨'.', by decide, rfl⟩
        · dsimp only
          split
          · exact ⟨'.', point_mem_positional _ _, rfl⟩
          · exact ⟨'e', mark_mem_exponential layout _ _, rfl⟩
      obtain ⟨c, member, mark⟩ := marked
      refine ⟨c, ?_, mark⟩
      simp only [Binary64.text, String.toList_ofList]
      split
      · exact List.mem_cons_of_mem '-' member
      · exact member

theorem not_isDoubleMark_of_mem_intText {n : Int} {c : Char} (member : c ∈ (intText n).toList) :
    isDoubleMark c = false := by
  rcases mem_intText member with rfl | digit
  · rfl
  · have none : ".eNI".toList.all (fun mark => !mark.isDigit) = true := by decide
    simp only [isDoubleMark, List.contains_eq_mem, decide_eq_false_iff_not]
    intro mark
    have other := List.all_eq_true.mp none c mark
    rw [digit] at other
    cases other

theorem text_ne_intText (x : Binary64) (n : Int) :
    (x.text ⟨"NaN", "Infinity"⟩).toList ≠ (intText n).toList := by
  intro same
  obtain ⟨c, member, mark⟩ := exists_mark_mem_text x
  rw [same] at member
  rw [not_isDoubleMark_of_mem_intText member] at mark
  cases mark

end FlowCorpus.Number
