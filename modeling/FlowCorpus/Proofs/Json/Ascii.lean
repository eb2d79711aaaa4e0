import FlowCorpus.Json.Printer
import FlowCorpus.Proofs.Number.Characters

/-!
# JSON text is printable ASCII

Whatever the texts and numbers of a value are, its JSON text has printable ASCII characters only:
everything else is escaped. So a written value is one line, and no reader changes its line ends.
-/

set_option autoImplicit false

namespace FlowCorpus.Json

open FlowCorpus.Number FlowCorpus.Text

def PlainChar (c : Char) : Prop :=
  0x20 ≤ c.toNat ∧ c.toNat < 0x7f

instance : DecidablePred PlainChar := fun c =>
  inferInstanceAs (Decidable (0x20 ≤ c.toNat ∧ c.toNat < 0x7f))

def PlainText (s : List Char) : Prop :=
  ∀ c ∈ s, PlainChar c

instance (s : List Char) : Decidable (PlainText s) :=
  List.decidableBAll PlainChar s

theorem plainText_nil : PlainText [] := fun _ member => nomatch member

@[simp] theorem plainText_cons {c : Char} {s : List Char} :
    PlainText (c :: s) ↔ PlainChar c ∧ PlainText s :=
  List.forall_mem_cons

@[simp] theorem plainText_append {s t : List Char} :
    PlainText (s ++ t) ↔ PlainText s ∧ PlainText t :=
  List.forall_mem_append

theorem plainText_replicate {c : Char} (plain : PlainChar c) (count : Nat) :
    PlainText (List.replicate count c) := fun _ member => by
  rw [List.eq_of_mem_replicate member]
  exact plain

/-! ## Numbers -/

theorem plain_digitChar (digit : Nat) : PlainChar digit.digitChar :=
  match digit with
  | 0 | 1 | 2 | 3 | 4 | 5 | 6 | 7 | 8 | 9 | 10 | 11 | 12 | 13 | 14 | 15 => by decide
  | _ + 16 => by
      rw [Nat.digitChar_eq_star.mpr (Nat.le_add_left 16 _)]
      decide

theorem plain_toDigits {base : Nat} (proper : 1 < base) (n : Nat) :
    PlainText (Nat.toDigits base n) := by
  induction n using Nat.strongRecOn with
  | _ n ih =>
      rw [Nat.toDigits_eq_if proper]
      split
      · exact plainText_cons.mpr ⟨plain_digitChar n, plainText_nil⟩
      · rename_i large
        have smaller : n / base < n := Nat.div_lt_self (by omega) proper
        exact plainText_append.mpr
          ⟨ih _ smaller, plainText_cons.mpr ⟨plain_digitChar _, plainText_nil⟩⟩

theorem plainChar_of_isNumeralChar {c : Char} (numeral : isNumeralChar c = true) :
    PlainChar c := by
  unfold isNumeralChar at numeral
  rw [Bool.or_eq_true] at numeral
  rcases numeral with digit | mark
  · have bounds : 0x30 ≤ c.toNat ∧ c.toNat ≤ 0x39 := by
      simpa [Char.isDigit, Char.le_def, UInt32.le_iff_toNat_le] using digit
    exact ⟨by omega, by omega⟩
  · have marks : "+-.eNaInfity".toList.all (fun c => decide (PlainChar c)) = true := by decide
    simpa using List.all_eq_true.mp marks c (by simpa using mark)

theorem plain_intText (n : Int) : PlainText (intText n).toList := fun _ member => by
  rcases mem_intText member with rfl | digit
  · decide
  · exact plainChar_of_isNumeralChar (isNumeralChar_of_isDigit digit)

theorem plain_float (x : Binary64) : PlainText (x.text ⟨"NaN", "Infinity"⟩).toList :=
  fun _ member => plainChar_of_isNumeralChar (isNumeralChar_of_mem_text member)

/-! ## Texts -/

theorem plain_unitEscape (n : Nat) : PlainText (unitEscape n) := by
  unfold unitEscape hex
  simp only [plainText_cons, plainText_append]
  exact ⟨by decide, by decide, plainText_replicate (by decide) _, plain_toDigits (by decide) n⟩

theorem plain_writeChar (c : Char) : PlainText (writeChar c) := by
  unfold writeChar
  dsimp only
  -- The seven short escapes come first.
  iterate 7
    split
    · decide
  split
  · rename_i plain
    simp only [Bool.and_eq_true, decide_eq_true_eq] at plain
    exact plainText_cons.mpr ⟨plain, plainText_nil⟩
  · split
    · exact plain_unitEscape _
    · exact plainText_append.mpr ⟨plain_unitEscape _, plain_unitEscape _⟩

theorem plain_writePoint (p : Point) : PlainText (writePoint p) := by
  cases p with
  | char c => exact plain_writeChar c
  | first bits => exact plain_unitEscape _
  | second bits => exact plain_unitEscape _

theorem plain_writeText (s : LooseText) : PlainText (writeText s) := by
  have points : PlainText (s.points.flatMap writePoint) := fun c member => by
    obtain ⟨source, _, written⟩ := List.mem_flatMap.mp member
    exact plain_writePoint source c written
  unfold writeText
  simp only [plainText_cons, plainText_append]
  exact ⟨by decide, points, by decide, plainText_nil⟩

/-! ## Values -/

mutual

/-- A written value is printable ASCII when what stands between its parts is. -/
theorem plain_write {separators : Separators} (item : PlainText separators.item)
    (key : PlainText separators.key) : ∀ v : Value, PlainText (v.write separators)
  | .null => by simp only [Value.write]; decide
  | .bool b => by cases b <;> simp only [Value.write] <;> decide
  | .int n => by
      simp only [Value.write]
      exact plain_intText n
  | .float x => by
      simp only [Value.write]
      exact plain_float x
  | .str s => by
      simp only [Value.write]
      exact plain_writeText s
  | .arr items => by
      simp only [Value.write, plainText_cons, plainText_append]
      exact ⟨by decide, plain_writeItems item key items, by decide, plainText_nil⟩
  | .obj fields => by
      simp only [Value.write, plainText_cons, plainText_append]
      exact ⟨by decide, plain_writeFields item key fields, by decide, plainText_nil⟩

theorem plain_writeItems {separators : Separators} (item : PlainText separators.item)
    (key : PlainText separators.key) : ∀ items : List Value, PlainText (writeItems separators items)
  | [] => plainText_nil
  | [v] => plain_write item key v
  | v :: w :: rest => by
      simp only [writeItems, plainText_append]
      exact ⟨⟨plain_write item key v, item⟩, plain_writeItems item key (w :: rest)⟩

theorem plain_writeFields {separators : Separators} (item : PlainText separators.item)
    (key : PlainText separators.key) :
    ∀ fields : Fields, PlainText (writeFields separators fields)
  | [] => plainText_nil
  | [(k, v)] => by
      simp only [writeFields, plainText_append]
      exact ⟨⟨plain_writeText k, key⟩, plain_write item key v⟩
  | (k, v) :: field :: rest => by
      simp only [writeFields, plainText_append]
      exact ⟨⟨⟨⟨plain_writeText k, key⟩, plain_write item key v⟩, item⟩,
        plain_writeFields item key (field :: rest)⟩

end

/-- The text of a value, as files hold it, is printable ASCII. -/
theorem plain_render (v : Value) : PlainText v.render.toList := by
  rw [Value.render, String.toList_ofList]
  exact plain_write (by decide) (by decide) v

theorem noReturn_render (v : Value) : '\r' ∉ v.render.toList := fun member =>
  absurd (plain_render v '\r' member) (by decide)

end FlowCorpus.Json
