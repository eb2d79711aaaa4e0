import FlowCorpus.Proofs.Exchange.Ranges
import FlowCorpus.Proofs.Number.Exact
import FlowCorpus.Proofs.Number.Written

/-!
# Values that are read as addresses

An integer is an address when it is in range, in whichever way a record gives it. Whatever stands
for no integer is no address, and neither is a text with a separator in it.
-/

set_option autoImplicit false

namespace FlowCorpus.Program

open FlowCorpus.Json FlowCorpus.Number FlowCorpus.Text

/-- A value that stands for an integer: the integer itself, a double that is worth it, or a text in
which it is written, with blanks around it that are no separators. -/
inductive Denotes : Value → Int → Prop where
  | int (n : Int) : Denotes (.int n) n
  | float {x : Binary64} {n : Int} : x.isFinite = true → x.toRat = n → Denotes (.float x) n
  | text {n : Int} {before s after : List Char} :
      (∀ c ∈ before ++ after, isBlank c = true ∧ c ∉ separators) → WrittenInt n s →
        Denotes (.str (String.ofList (before ++ s ++ after))) n

/-- A value that stands for no integer: a double with a fraction or not finite, a text with half a
surrogate pair, or a value that is neither number nor text. -/
inductive Numberless : Value → Prop where
  | float {x : Binary64} : (∀ n : Int, ¬ (x.isFinite = true ∧ x.toRat = n)) → Numberless (.float x)
  | halved (t : HalvedText) : Numberless (.str (.halved t))
  | null : Numberless .null
  | bool (b : Bool) : Numberless (.bool b)
  | arr (items : List Value) : Numberless (.arr items)
  | obj (fields : Fields) : Numberless (.obj fields)

theorem addressLimit_le : addressLimit.toNat ≤ 10 ^ digitLimit :=
  calc addressLimit.toNat ≤ 10 ^ 20 := by decide
    _ ≤ 10 ^ digitLimit := Nat.pow_le_pow_right (by decide) (by decide)

theorem addressOfInt_of_large {n : Int} (large : 10 ^ digitLimit ≤ n.natAbs) :
    addressOfInt n = noAddress := by
  have limit := addressLimit_le.trans large
  unfold addressOfInt
  rw [if_neg]
  unfold addressLimit at limit ⊢
  omega

/-- A value is read as the integer that it stands for, if this is in range. -/
theorem addressOf_denotes {value : Value} {n : Int} (denotes : Denotes value n) :
    addressOf value = addressOfInt n := by
  cases denotes with
  | int => rfl
  | float finite worth =>
      obtain ⟨integral, part⟩ := (Binary64.isIntegral_and_toInt?_iff _ _).mpr ⟨finite, worth⟩
      simp only [addressOf, if_pos integral, part, Option.map_some, Option.getD_some]
  | text blanks written =>
      simp only [addressOf, String.toList_ofList]
      rcases readBasedInt?_written blanks written with read | ⟨unread, large⟩
      · rw [read]
        rfl
      · rw [unread, addressOfInt_of_large large]
        rfl

theorem addressOf_numberless {value : Value} (numberless : Numberless value) :
    addressOf value = noAddress := by
  cases numberless with
  | @float x none =>
      unfold addressOf
      dsimp only
      split
      · rename_i integral
        cases part : x.toInt? with
        | none => rfl
        | some n =>
            have worth := (Binary64.isIntegral_and_toInt?_iff x n).mp ⟨integral, part⟩
            exact absurd worth (none n)
      · rfl
  | halved | null | bool | arr | obj => rfl

theorem addressOf_separated {s : String} {c : Char} (member : c ∈ s.toList)
    (separator : c ∈ separators) : addressOf (.str s) = noAddress := by
  unfold addressOf
  dsimp only
  rw [readBasedInt?_of_separator member separator]
  rfl

/-- A separator is white space, but the text with one in front of the digits is no address. -/
theorem not_addressOf_blanks :
    ¬ ∀ (n : Nat) (before s after : List Char), (n : Int) < addressLimit → Written n s →
      (∀ c ∈ before ++ after, isBlank c = true) →
        addressOf (.str (String.ofList (before ++ s ++ after))) = n := by
  intro read
  have written : Written 5 ['5'] := .decimal (.digit rfl (by decide)) (by decide)
  have blank : ∀ c ∈ ['\x1c'] ++ [], isBlank c = true := List.all_eq_true.mp (by decide)
  have five := read 5 ['\x1c'] ['5'] [] (by decide +kernel) written blank
  exact absurd five (by decide +kernel)

/-- Reading an address gives an address or none. It gives the integer that a value stands for when
this is in range, and none for an integer out of range, for what stands for no integer, and for a
text with a separator. Every natural number has texts in all four bases. -/
theorem addressOf_spec :
    (∀ value, IsAddressOrNone (addressOf value)) ∧
    (∀ value n, Denotes value n →
      addressOf value = if 0 ≤ n ∧ n < 2 ^ 64 then n else -1) ∧
    (∀ value, Numberless value → addressOf value = -1) ∧
    (∀ s : String, (∃ c ∈ s.toList, c ∈ separators) → addressOf (.str s) = -1) ∧
    ∀ n, Written n (natDigits n) ∧
      ∀ mark base digits, baseOf? mark = some base →
        digits.map lowerAscii = Nat.toDigits base n → Written n ('0' :: mark :: digits) := by
  refine ⟨isAddressOrNone_addressOf, ?_, ?_, ?_, ?_⟩
  · intro value n denotes
    exact addressOf_denotes denotes
  · intro value numberless
    exact addressOf_numberless numberless
  · rintro s ⟨c, member, separator⟩
    exact addressOf_separated member separator
  · intro n
    refine ⟨written_natDigits n, ?_⟩
    intro mark base digits marks same
    exact written_marked marks same

/-- A text with a sign, a mark, a low line and blanks; the greatest address as a text, and the next
integer as a double; a negative number, a fraction, and a separator. -/
theorem addressOf_spec_limits :
    addressOf (.str "\u2003+0X_1_f\x85") = 31 ∧
      addressOf (.str "0xFFFFffffffffffff") = 18446744073709551615 ∧
      addressOf (.float (.finite false 4503599627370496 12)) = -1 ∧
      addressOf (.str "-1") = -1 ∧ addressOf (.float (.finite false 1 (-1))) = -1 ∧
      addressOf (.str "\x1c5") = -1 := by
  obtain ⟨-, given, other, separated, texts⟩ := addressOf_spec
  have mark : baseOf? 'X' = some 16 := rfl
  have first : Numeral 16 1 ['1'] := .digit rfl (by decide)
  have letter : digitValue? 'f' = some 15 := rfl
  have spaced : Numeral 16 31 ['1', '_', 'f'] := .spaced first letter (by decide)
  have bare : ∀ c ∈ ([] : List Char) ++ [], isBlank c = true ∧ c ∉ separators := by simp
  have blanks : ∀ c ∈ ['\u2003'] ++ ['\x85'], isBlank c = true ∧ c ∉ separators := by
    simp [isBlank, separators]
  have greatest : Written 18446744073709551615 _ :=
    (texts 18446744073709551615).2 'x' 16 ("FFFFffffffffffff".toList) rfl (by decide +kernel)
  have one : Written 1 ['1'] := .decimal (.digit rfl (by decide)) (by decide)
  have half : ∀ n : Int, ¬ ((Binary64.finite false 1 (-1)).isFinite = true ∧
      (Binary64.finite false 1 (-1)).toRat = n) := by
    rintro n ⟨-, worth⟩
    have twice := (Binary64.toRat_scaledDown_iff false 1 1 n).mp worth
    simp [Binary64.signed] at twice
    omega
  refine ⟨?_, ?_, ?_, ?_, ?_, ?_⟩
  · exact given _ 31 (.text blanks (.positive (.apart mark spaced)))
  · exact given _ _ (.text bare (.plain greatest))
  · refine given _ 18446744073709551616 (.float rfl ?_)
    rw [show (12 : Int) = (12 : Nat) from rfl, Binary64.toRat_scaledUp]
    norm_num [Binary64.signed]
  · exact given _ (-1) (.text bare (.negative one))
  · exact other _ (.float half)
  · exact separated "\x1c5" ⟨'\x1c', by decide, by decide⟩

end FlowCorpus.Program
