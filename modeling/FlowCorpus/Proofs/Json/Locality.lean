import Mathlib.Data.List.DropRight
import FlowCorpus.Proofs.Json.Text
import FlowCorpus.Proofs.Text.Runs

/-!
# The reader looks no further than a value

What stands behind a value does not change how the value is read, as long as it does not go on with
a word or a number. Nor does the fuel, when there is enough for the text, or more room for lists
and objects inside each other.
-/

set_option autoImplicit false

namespace FlowCorpus.Json

open FlowCorpus.Number FlowCorpus.Text

def stopping : List Char := [',', ']', '}', ' ', '\t', '\n', '\r']

def Stops (rest : List Char) : Prop :=
  ∀ c ∈ rest.head?, c ∈ stopping

theorem stops_nil : Stops [] :=
  nofun

theorem stops_cons {c : Char} (stop : c ∈ stopping) (rest : List Char) : Stops (c :: rest) := by
  rintro d ⟨⟩
  exact stop

def withRest {α : Type} (more : List Char) (taken : α × List Char) : α × List Char :=
  (taken.1, taken.2 ++ more)

/-! ## Words and numbers -/

theorem takeDigits_append {more : List Char} (stops : Stops more) (s : List Char) :
    takeDigits (s ++ more) = withRest more (takeDigits s) := by
  have noDigit : ∀ c ∈ stopping, isDigit c = false := by
    simp [stopping]
    decide
  induction s with
  | nil =>
      cases more with
      | nil => rfl
      | cons c rest => simp [takeDigits, withRest, noDigit c (stops c rfl)]
  | cons c s ih =>
      simp only [takeDigits, withRest, List.cons_append, Prod.mk.injEq] at ih ⊢
      cases digit : isDigit c with
      | true => simp [digit, ih.1, ih.2]
      | false => simp [digit]

theorem takeSign_of_ne {c : Char} (noMinus : c ≠ '-') (noPlus : c ≠ '+') (s : List Char) :
    takeSign (c :: s) = (false, c :: s) := by
  simp [takeSign, noMinus, noPlus]

theorem takeSign_append {more : List Char} (stops : Stops more) (s : List Char) :
    takeSign (s ++ more) = withRest more (takeSign s) := by
  have noSign : ∀ c ∈ stopping, c ≠ '-' ∧ c ≠ '+' := by simp [stopping]
  cases s with
  | nil =>
      cases more with
      | nil => rfl
      | cons c rest =>
          obtain ⟨noMinus, noPlus⟩ := noSign c (stops c rfl)
          exact takeSign_of_ne noMinus noPlus rest
  | cons c s =>
      by_cases minus : c = '-'
      · subst minus
        rfl
      · by_cases plus : c = '+'
        · subst plus
          rfl
        · rw [takeSign_of_ne minus plus, List.cons_append, takeSign_of_ne minus plus]
          rfl

theorem fraction?_append {more : List Char} (stops : Stops more) (s : List Char) :
    fraction? (s ++ more) = (fraction? s).map (withRest more) := by
  have noPoint : ∀ c ∈ stopping, c ≠ '.' := by simp [stopping]
  have other {c : Char} (plain : c ≠ '.') (s : List Char) : fraction? (c :: s) = none := by
    simp [fraction?, plain]
  cases s with
  | nil =>
      cases more with
      | nil => rfl
      | cons c rest => exact other (noPoint c (stops c rfl)) rest
  | cons c s =>
      by_cases point : c = '.'
      · subst point
        simp only [List.cons_append, fraction?, takeDigits_append stops, withRest]
        rcases takeDigits s with ⟨digits, rest⟩
        cases digits <;> rfl
      · rw [List.cons_append, other point, other point]
        rfl

theorem scale?_append {more : List Char} (stops : Stops more) (s : List Char) :
    scale? (s ++ more) = (scale? s).map (withRest more) := by
  have noLetter : ∀ c ∈ stopping, (c = 'e' || c = 'E') = false := by simp [stopping]
  cases s with
  | nil =>
      cases more with
      | nil => rfl
      | cons c rest =>
         have plain := noLetter c (stops c rfl)
         simp only [List.nil_append, scale?, plain]
         rfl
  | cons c s =>
      simp only [List.cons_append, scale?, takeSign_append stops, withRest, takeDigits_append stops]
      split
      · rcases takeDigits (takeSign s).2 with ⟨digits, rest⟩
        cases digits <;> rfl
      · rfl

/-- A number whose digits in front are known and do not begin with a superfluous zero. -/
def numberFrom (negative : Bool) (whole rest : List Char) : Reader Value :=
  match fraction? rest, scale? rest with
  | none, none =>
    if digitLimit < whole.length then .error (.integerTooLong whole.length)
    else .ok (.int (withSign negative (digitsValue whole)), rest)
  | none, some (scale, rest) =>
    .ok (.float (Binary64.ofDecimal negative (digitsValue whole) scale), rest)
  | some (places, rest), _ =>
    let (scale, rest) := (scale? rest).getD (0, rest)
    .ok (.float (Binary64.ofDecimal negative (digitsValue (whole ++ places))
      (scale - places.length)), rest)

theorem readNumber_eq {negative : Bool} {s whole rest : List Char}
    (taken : takeDigits s = (whole, rest)) :
    readNumber negative s =
      if whole = [] then .error .malformed
      else if whole.head? = some '0' ∧ whole.length ≠ 1 then .ok (.int 0, s.drop 1)
      else numberFrom negative whole rest := by
  unfold readNumber
  rw [taken]
  rcases whole with _ | ⟨a, _ | ⟨b, whole⟩⟩
  · rfl
  · by_cases zero : a = '0'
    · subst zero
      rfl
    · cases places : fraction? rest <;> cases power : scale? rest <;>
        simp [numberFrom, places, power]
  · by_cases zero : a = '0'
    · subst zero
      simp
    · split
      · rename_i same
        cases same
      · rename_i same
        cases same
        exact absurd rfl zero
      · rename_i same
        cases same
        cases places : fraction? rest <;> cases power : scale? rest <;>
          simp [numberFrom, zero, places, power]

theorem numberFrom_append {more : List Char} (stops : Stops more) (negative : Bool)
    (whole rest : List Char) :
    numberFrom negative whole (rest ++ more) =
      (numberFrom negative whole rest).map (withRest more) := by
  unfold numberFrom
  rw [fraction?_append stops, scale?_append stops]
  cases fraction? rest with
  | none =>
      cases scale? rest with
      | none =>
          simp only [Option.map_none]
          split <;> rfl
      | some taken => rfl
  | some taken =>
      obtain ⟨places, rest⟩ := taken
      simp only [Option.map_some, withRest, scale?_append stops]
      cases scale? rest <;> rfl

theorem readNumber_append {more : List Char} (stops : Stops more) (negative : Bool)
    (s : List Char) :
    readNumber negative (s ++ more) = (readNumber negative s).map (withRest more) := by
  rcases taken : takeDigits s with ⟨whole, rest⟩
  have further : takeDigits (s ++ more) = (whole, rest ++ more) := by
    rw [takeDigits_append stops, taken]
    rfl
  rw [readNumber_eq taken, readNumber_eq further]
  split
  · rfl
  · rename_i some
    split
    · cases s with
      | nil =>
          cases taken
          exact absurd rfl some
      | cons c s => rfl
    · exact numberFrom_append stops negative whole rest

theorem findSome?_append {more : List Char} (words : List (List Char × Value))
    (apart : ∀ entry ∈ words, ∀ c ∈ more.head?, c ∉ entry.1) (s : List Char) :
    (words.findSome? fun (word, value) =>
        (word.isPrefixOf? (s ++ more)).map fun rest => (value, rest)) =
      (words.findSome? fun (word, value) =>
        (word.isPrefixOf? s).map fun rest => (value, rest)).map (withRest more) := by
  induction words with
  | nil => rfl
  | cons entry words ih =>
      obtain ⟨word, value⟩ := entry
      have rest := ih fun entry member => apart entry (List.mem_cons_of_mem _ member)
      simp only [List.findSome?_cons, isPrefixOf?_append (apart (word, value) List.mem_cons_self)]
      cases word.isPrefixOf? s with
      | none => exact rest
      | some behind => rfl

theorem readScalar_append {more : List Char} (stops : Stops more) (s : List Char) :
    readScalar (s ++ more) = (readScalar s).map (withRest more) := by
  have letters : ∀ entry ∈ wordValues, ∀ c ∈ stopping, c ∉ entry.1 := by
    simp [wordValues, stopping]
  unfold readScalar
  rw [findSome?_append wordValues fun entry member c head => letters entry member c (stops c head)]
  cases wordValues.findSome? fun (word, value) =>
      (word.isPrefixOf? s).map fun rest => (value, rest) with
  | some taken => rfl
  | none =>
      cases s with
      | nil =>
          cases more with
          | nil => rfl
          | cons c rest =>
              have stopped : ∀ c ∈ stopping, c ≠ '-' := by simp [stopping]
              have plain : c ≠ '-' := stopped c (stops c rfl)
              simpa [plain] using readNumber_append stops false []
      | cons c s =>
          by_cases minus : c = '-'
          · subst minus
            exact readNumber_append stops true s
          · simpa [minus] using readNumber_append stops false (c :: s)

/-! ## What is left is the end of the text -/

theorem isPrefixOf?_suffix {word s rest : List Char} (found : word.isPrefixOf? s = some rest) :
    rest <:+ s := by
  induction word generalizing s with
  | nil =>
      cases found
      exact List.suffix_refl _
  | cons a word ih =>
      cases s with
      | nil => cases found
      | cons b s =>
          simp only [List.isPrefixOf?] at found
          split at found
          · exact (ih found).trans (List.suffix_cons b s)
          · cases found

theorem takeDigits_suffix {s digits rest : List Char} (taken : takeDigits s = (digits, rest)) :
    rest <:+ s := by
  cases taken
  exact List.dropWhile_suffix isDigit

theorem takeSign_suffix (s : List Char) : (takeSign s).2 <:+ s := by
  unfold takeSign
  split
  · exact List.suffix_cons _ _
  · exact List.suffix_cons _ _
  · exact List.suffix_refl _

theorem fraction?_suffix {s places rest : List Char} (found : fraction? s = some (places, rest)) :
    rest <:+ s := by
  unfold fraction? at found
  split at found
  · split at found
    · cases found
    · cases found
      exact (takeDigits_suffix rfl).trans (List.suffix_cons _ _)
  · cases found

theorem scale?_suffix {s rest : List Char} {scale : Int} (found : scale? s = some (scale, rest)) :
    rest <:+ s := by
  cases s with
  | nil => cases found
  | cons c s =>
      simp only [scale?] at found
      split at found
      · split at found
        · cases found
        · rename_i taken
          cases found
          have last := (takeDigits_suffix taken).trans (takeSign_suffix s)
          exact last.trans (List.suffix_cons c s)
      · cases found

theorem readNumber_suffix {negative : Bool} {s rest : List Char} {v : Value}
    (success : readNumber negative s = .ok (v, rest)) : rest <:+ s := by
  rcases taken : takeDigits s with ⟨whole, behind⟩
  rw [readNumber_eq taken] at success
  unfold numberFrom at success
  split at success
  · cases success
  · split at success
    · cases success
      exact List.drop_suffix 1 s
    · refine List.IsSuffix.trans ?_ (takeDigits_suffix taken)
      split at success
      · split at success
        · cases success
        · cases success
          exact List.suffix_refl _
      · rename_i scaled
        cases success
        exact scale?_suffix scaled
      · rename_i places rest placed
        cases success
        cases scaled : scale? rest with
        | none => exact fraction?_suffix placed
        | some taken => exact (scale?_suffix scaled).trans (fraction?_suffix placed)

theorem readScalar_suffix {s rest : List Char} {v : Value}
    (success : readScalar s = .ok (v, rest)) : rest <:+ s := by
  unfold readScalar at success
  split at success
  · rename_i taken found
    cases success
    obtain ⟨⟨word, value⟩, -, matched⟩ := List.exists_of_findSome?_eq_some found
    obtain ⟨behind, found, same⟩ := Option.map_eq_some_iff.mp matched
    cases same
    exact isPrefixOf?_suffix found
  · split at success
    · exact (readNumber_suffix success).trans (List.suffix_cons _ _)
    · exact readNumber_suffix success

/-! ## Texts and blanks -/

theorem textUnits_append (more : List Char) {units found : List Nat} {s rest : List Char}
    (success : textUnits units s = .ok (found, rest)) :
    textUnits units (s ++ more) = .ok (found, rest ++ more) ∧ rest <:+ s := by
  induction units, s using textUnits.induct with
  | case1 units => cases success
  | case2 units a b c d behind n value ih =>
      simp only [textUnits, ↓reduceIte, value] at success
      obtain ⟨longer, suffix⟩ := ih success
      simp only [List.cons_append, textUnits, ↓reduceIte, value]
      exact ⟨longer, suffix.trans (List.suffix_append ['\\', 'u', a, b, c, d] behind)⟩
  | case3 units a b c d behind noUnit =>
      simp only [textUnits, ↓reduceIte, noUnit] at success
      cases success
  | case4 units behind short =>
      unfold textUnits at success
      simp only [↓reduceIte] at success
      cases success
  | case5 units c behind noUnit n short ih =>
      rw [textUnits_escaped short] at success
      obtain ⟨longer, suffix⟩ := ih success
      rw [List.cons_append, List.cons_append, textUnits_escaped short]
      exact ⟨longer, suffix.trans (List.suffix_append ['\\', c] behind)⟩
  | case6 units c behind noUnit noEscape =>
      unfold textUnits at success
      simp only [noUnit, ↓reduceIte, noEscape] at success
      cases success
  | case7 units behind =>
      rw [textUnits_quote] at success
      cases success
      exact ⟨textUnits_quote units _, List.suffix_cons _ _⟩
  | case8 units c behind noEscape noQuote refused =>
      rw [textUnits.eq_4 units c behind noEscape, if_neg noQuote, if_pos refused] at success
      cases success
  | case9 units c behind noEscape noQuote plain ih =>
      simp only [Bool.or_eq_true, decide_eq_true_eq, not_or, Nat.not_lt] at plain
      rw [textUnits_plain noQuote plain.1 plain.2] at success
      obtain ⟨longer, suffix⟩ := ih success
      rw [List.cons_append, textUnits_plain noQuote plain.1 plain.2]
      exact ⟨longer, suffix.trans (List.suffix_cons c behind)⟩

theorem readText_append (more : List Char) {s rest : List Char} {text : LooseText}
    (success : readText s = .ok (text, rest)) :
    readText (s ++ more) = .ok (text, rest ++ more) ∧ rest <:+ s := by
  unfold readText at success ⊢
  cases read : textUnits [] s with
  | error e =>
      rw [read] at success
      cases success
  | ok taken =>
      obtain ⟨units, behind⟩ := taken
      rw [read] at success
      cases success
      obtain ⟨longer, suffix⟩ := textUnits_append more read
      rw [longer]
      exact ⟨rfl, suffix⟩

theorem skipBlanks_append {s : List Char} (more : List Char) (some : skipBlanks s ≠ []) :
    skipBlanks (s ++ more) = skipBlanks s ++ more := by
  unfold skipBlanks at some ⊢
  rw [List.dropWhile_append, if_neg (by rwa [List.isEmpty_iff])]

theorem skipBlanks_append_of_nil {s : List Char} (more : List Char) (blank : skipBlanks s = []) :
    skipBlanks (s ++ more) = skipBlanks more := by
  unfold skipBlanks at blank ⊢
  rw [List.dropWhile_append, if_pos (by rwa [List.isEmpty_iff])]

theorem skipBlanks_skipBlanks (s : List Char) : skipBlanks (skipBlanks s) = skipBlanks s :=
  List.dropWhile_idempotent isJsonBlank s

theorem skipBlanks_suffix (s : List Char) : skipBlanks s <:+ s :=
  List.dropWhile_suffix isJsonBlank

theorem skipBlanks_eq_cons {s rest : List Char} {c : Char} (shape : skipBlanks s = c :: rest)
    (more : List Char) : skipBlanks (s ++ more) = c :: (rest ++ more) := by
  have some : skipBlanks s ≠ [] := shape ▸ List.cons_ne_nil c rest
  rw [skipBlanks_append more some, shape]
  rfl

end FlowCorpus.Json
