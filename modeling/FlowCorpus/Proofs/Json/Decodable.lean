import FlowCorpus.Proofs.Json.Locality
import FlowCorpus.Proofs.Number.Characters

/-!
# Compact text is uniquely decodable

Two values with one text are the same value. No text of a value is the start of another one, unless
what follows goes on with the value: so the parts of a list or an object can be told apart.
-/

set_option autoImplicit false

namespace FlowCorpus.Json

open FlowCorpus.Number FlowCorpus.Text

mutual

def Value.doubles : Value → List Binary64
  | .float x => [x]
  | .arr items => itemsDoubles items
  | .obj fields => fieldsDoubles fields
  | _ => []

def itemsDoubles : List Value → List Binary64
  | [] => []
  | v :: rest => v.doubles ++ itemsDoubles rest

def fieldsDoubles : Fields → List Binary64
  | [] => []
  | (_, v) :: rest => v.doubles ++ fieldsDoubles rest

end

def doubleText (x : Binary64) : String :=
  x.text ⟨"NaN", "Infinity"⟩

/-- No double of the first list has the text of another double of the second one. -/
def Spelled (xs ys : List Binary64) : Prop :=
  ∀ x ∈ xs, ∀ y ∈ ys, doubleText x = doubleText y → x = y

theorem Spelled.left {xs zs ys ws : List Binary64} (spelled : Spelled (xs ++ zs) (ys ++ ws)) :
    Spelled xs ys := fun x first y second =>
  spelled x (List.mem_append_left zs first) y (List.mem_append_left ws second)

theorem Spelled.right {xs zs ys ws : List Binary64} (spelled : Spelled (xs ++ zs) (ys ++ ws)) :
    Spelled zs ws := fun x first y second =>
  spelled x (List.mem_append_right xs first) y (List.mem_append_right ys second)

/-! ## Words and numbers -/

def Value.word? : Value → Option String
  | .null => some "null"
  | .bool true => some "true"
  | .bool false => some "false"
  | _ => none

def Value.isNumber : Value → Bool
  | .int _ | .float _ => true
  | _ => false

def Value.isFlat (v : Value) : Bool :=
  v.word?.isSome || v.isNumber

def isFlatChar (c : Char) : Bool :=
  isNumeralChar c || "ulrs".toList.contains c

theorem write_word (separators : Separators) {v : Value} {word : String}
    (found : v.word? = some word) :
    v.write separators = word.toList ∧ word ∈ ["null", "true", "false"] := by
  unfold Value.word? at found
  split at found <;> cases found <;> simp [Value.write]

theorem isNumeralChar_of_mem_write {separators : Separators} {v : Value}
    (number : v.isNumber = true) {c : Char} (member : c ∈ v.write separators) :
    isNumeralChar c = true := by
  unfold Value.isNumber at number
  split at number
  · simp only [Value.write] at member
    rcases mem_intText member with rfl | digit
    · rfl
    · exact isNumeralChar_of_isDigit digit
  · simp only [Value.write] at member
    exact isNumeralChar_of_mem_text member
  · cases number

theorem isFlatChar_of_mem_write {separators : Separators} {v : Value} (flat : v.isFlat = true)
    {c : Char} (member : c ∈ v.write separators) : isFlatChar c = true := by
  have letters : ∀ word ∈ ["null", "true", "false"], word.toList.all isFlatChar = true := by decide
  cases found : v.word? with
  | some word =>
      obtain ⟨written, listed⟩ := write_word separators found
      rw [written] at member
      exact List.all_eq_true.mp (letters word listed) c member
  | none =>
      have number : v.isNumber = true := by simpa [Value.isFlat, found] using flat
      simp [isFlatChar, isNumeralChar_of_mem_write number member]

theorem write_number_ne_word {separators : Separators} {v w : Value} (number : v.isNumber = true)
    {word : String} (found : w.word? = some word) : v.write separators ≠ w.write separators := by
  have letters : ∀ word ∈ ["null", "true", "false"],
      word.toList.any (fun c => !isNumeralChar c) = true := by decide
  obtain ⟨written, listed⟩ := write_word separators found
  obtain ⟨c, member, letter⟩ := List.any_eq_true.mp (letters word listed)
  intro same
  rw [← written, ← same] at member
  rw [isNumeralChar_of_mem_write number member] at letter
  cases letter

theorem eq_of_word {v w : Value} {word : String} (first : v.word? = some word)
    (second : w.word? = some word) : v = w := by
  unfold Value.word? at first second
  split at first <;> split at second <;> cases first <;> simp_all

theorem eq_of_number {separators : Separators} {v w : Value} (first : v.isNumber = true)
    (second : w.isNumber = true) (spelled : Spelled v.doubles w.doubles)
    (same : v.write separators = w.write separators) : v = w := by
  unfold Value.isNumber at first second
  split at first
  · split at second
    · simp only [Value.write, String.toList_inj] at same
      rw [intText_injective same]
    · simp only [Value.write] at same
      exact absurd same.symm (text_ne_intText _ _)
    · cases second
  · split at second
    · simp only [Value.write] at same
      exact absurd same (text_ne_intText _ _)
    · rename_i x _ y
      simp only [Value.write, String.toList_inj] at same
      rw [spelled x (by simp [Value.doubles]) y (by simp [Value.doubles]) same]
    · cases second
  · cases first

theorem eq_of_flat {separators : Separators} {v w : Value} (first : v.isFlat = true)
    (second : w.isFlat = true) (spelled : Spelled v.doubles w.doubles)
    (same : v.write separators = w.write separators) : v = w := by
  have number {u : Value} (flat : u.isFlat = true) (none : u.word? = none) : u.isNumber = true := by
    simpa [Value.isFlat, none] using flat
  cases foundFirst : v.word? with
  | some word =>
      cases foundSecond : w.word? with
      | some other =>
          have words : word.toList = other.toList := by
            rw [← (write_word separators foundFirst).1, ← (write_word separators foundSecond).1,
              same]
          rw [String.toList_inj] at words
          exact eq_of_word foundFirst (words ▸ foundSecond)
      | none => exact absurd same.symm (write_number_ne_word (number second foundSecond) foundFirst)
  | none =>
      cases foundSecond : w.word? with
      | some other => exact absurd same (write_number_ne_word (number first foundFirst) foundSecond)
      | none =>
          exact eq_of_number (number first foundFirst) (number second foundSecond) spelled same

theorem isFlatChar_of_stopping {c : Char} (stop : c ∈ stopping) : isFlatChar c = false := by
  have outside : stopping.all (fun c => !isFlatChar c) = true := by decide
  simpa using List.all_eq_true.mp outside c stop

theorem takeWhile_of_stops {rest : List Char} (stops : Stops rest) :
    rest.takeWhile isFlatChar = [] := by
  cases rest with
  | nil => rfl
  | cons c more =>
      exact List.takeWhile_cons_of_neg (by simp [isFlatChar_of_stopping (stops c rfl)])

/-- Flat values in front of texts that end them are the same when the whole texts are. -/
theorem flat_append_inj {v w : Value} (first : v.isFlat = true) (second : w.isFlat = true)
    (spelled : Spelled v.doubles w.doubles) {rest after : List Char} (ends : Stops rest)
    (stops : Stops after) (same : v.write compact ++ rest = w.write compact ++ after) :
    v = w ∧ rest = after := by
  have taken {u : Value} (flat : u.isFlat = true) {behind : List Char} (ends : Stops behind) :
      (u.write compact ++ behind).takeWhile isFlatChar = u.write compact := by
    rw [List.takeWhile_append_of_pos fun c => isFlatChar_of_mem_write flat,
      takeWhile_of_stops ends, List.append_nil]
  have texts : v.write compact = w.write compact := by
    rw [← taken first ends, ← taken second stops, same]
  rw [texts] at same
  exact ⟨eq_of_flat first second spelled texts, List.append_cancel_left same⟩

/-! ## Values -/

def Value.opening? : Value → Option Char
  | .str _ => some '"'
  | .arr _ => some '['
  | .obj _ => some '{'
  | _ => none

theorem write_text_inj {s t : LooseText} {rest after : List Char}
    (same : writeText s ++ rest = writeText t ++ after) : s = t ∧ rest = after := by
  have read : readText (s.points.flatMap writePoint ++ '"' :: rest) =
      readText (t.points.flatMap writePoint ++ '"' :: after) := by
    refine congrArg readText ?_
    simpa [writeText] using same
  rw [readText_written, readText_written] at read
  simpa using read

/-- What follows one part of a list or an object: the closing bracket behind the last one, and the
other parts after a comma. -/
def behind (closing : Char) (last : Bool) (others after : List Char) : List Char :=
  if last then closing :: after else ',' :: (others ++ closing :: after)

theorem stops_behind (closing : Char) (bracket : closing ∈ stopping) (last : Bool)
    (others after : List Char) : Stops (behind closing last others after) := by
  unfold behind
  split
  · exact stops_cons bracket _
  · exact stops_cons (by decide) _

theorem behind_inj {closing : Char} (bracket : closing ≠ ',') {last final : Bool}
    {others texts rest after : List Char}
    (same : behind closing last others rest = behind closing final texts after) :
    (last = true ∧ final = true ∧ rest = after) ∨
      (last = false ∧ final = false ∧ others ++ closing :: rest = texts ++ closing :: after) := by
  cases last <;> cases final <;> simp_all [behind, Ne.symm bracket]

theorem write_cons_items (v : Value) (rest : List Value) (after : List Char) :
    writeItems compact (v :: rest) ++ ']' :: after =
      v.write compact ++ behind ']' rest.isEmpty (writeItems compact rest) after := by
  cases rest with
  | nil => simp [writeItems, behind]
  | cons next more => simp [writeItems, behind, compact]

theorem write_cons_fields (key : LooseText) (v : Value) (rest : Fields) (after : List Char) :
    writeFields compact ((key, v) :: rest) ++ '}' :: after =
      writeText key ++ ':' ::
        (v.write compact ++ behind '}' rest.isEmpty (writeFields compact rest) after) := by
  cases rest with
  | nil => simp [writeFields, behind, compact]
  | cons next more => simp [writeFields, behind, compact]

theorem isFlat_of_opening {v : Value} (none : v.opening? = none) : v.isFlat = true := by
  cases v with
  | bool b => cases b <;> rfl
  | null | int | float => rfl
  | str | arr | obj => cases none

theorem write_of_opening (separators : Separators) {v : Value} {c : Char}
    (opens : v.opening? = some c) :
    isFlatChar c = false ∧ c ∉ stopping ∧ ∃ tail, v.write separators = c :: tail := by
  cases v with
  | null | bool | int | float => cases opens
  | str s =>
      cases opens
      exact ⟨rfl, by decide, _, by simp only [Value.write, writeText]; rfl⟩
  | arr items =>
      cases opens
      exact ⟨rfl, by decide, _, by simp only [Value.write]; rfl⟩
  | obj fields =>
      cases opens
      exact ⟨rfl, by decide, _, by simp only [Value.write]; rfl⟩

theorem write_flat_ne_opening {v w : Value} {c : Char} (flat : v.isFlat = true)
    (opens : w.opening? = some c) {rest : List Char} (stops : Stops rest) (after : List Char) :
    v.write compact ++ rest ≠ w.write compact ++ after := by
  obtain ⟨noFlat, noStop, tail, written⟩ := write_of_opening compact opens
  intro same
  rw [written, List.cons_append] at same
  cases text : v.write compact with
  | nil =>
      rw [text, List.nil_append] at same
      exact noStop (stops c (by rw [same]; rfl))
  | cons first more =>
      rw [text, List.cons_append, List.cons.injEq] at same
      have inside : isFlatChar first = true :=
        isFlatChar_of_mem_write flat (text ▸ List.mem_cons_self)
      rw [same.1, noFlat] at inside
      cases inside

theorem opening_eq {v w : Value} {rest after : List Char} (ends : Stops rest) (stops : Stops after)
    (same : v.write compact ++ rest = w.write compact ++ after) : v.opening? = w.opening? := by
  cases first : v.opening? with
  | none =>
      cases second : w.opening? with
      | none => rfl
      | some c => exact absurd same (write_flat_ne_opening (isFlat_of_opening first) second ends _)
  | some c =>
      cases second : w.opening? with
      | none =>
          exact absurd same.symm (write_flat_ne_opening (isFlat_of_opening second) first stops _)
      | some d =>
          obtain ⟨_, _, tail, written⟩ := write_of_opening compact first
          obtain ⟨_, _, other, read⟩ := write_of_opening compact second
          rw [written, read, List.cons_append, List.cons_append, List.cons.injEq] at same
          rw [same.1]

theorem intText_ne_nil (n : Int) : (intText n).toList ≠ [] := by
  unfold intText
  rw [String.toList_ofList]
  split
  · exact List.cons_ne_nil _ _
  · exact Nat.toDigits_ne_nil

theorem write_ne_nil (separators : Separators) {v : Value} (flat : v.isFlat = true) :
    v.write separators ≠ [] := by
  cases v with
  | null => simp [Value.write]
  | bool b => cases b <;> simp [Value.write]
  | int n =>
      simp only [Value.write]
      exact intText_ne_nil n
  | float x =>
      simp only [Value.write]
      obtain ⟨c, member, _⟩ := exists_mark_mem_text x
      exact List.ne_nil_of_mem member
  | str | arr | obj => cases flat

/-- A written value begins with a character that goes on with it. -/
theorem write_head (separators : Separators) (v : Value) :
    ∃ c tail, v.write separators = c :: tail ∧ c ∉ stopping := by
  cases opens : v.opening? with
  | some c =>
      obtain ⟨_, noStop, tail, written⟩ := write_of_opening separators opens
      exact ⟨c, tail, written, noStop⟩
  | none =>
      have flat := isFlat_of_opening opens
      obtain ⟨c, tail, written⟩ := List.exists_cons_of_ne_nil (write_ne_nil separators flat)
      have inside := isFlatChar_of_mem_write flat (written ▸ List.mem_cons_self)
      refine ⟨c, tail, written, fun stop => ?_⟩
      rw [isFlatChar_of_stopping stop] at inside
      cases inside

theorem write_ne_stopping {c : Char} (stop : c ∈ stopping) (v : Value) (rest after : List Char) :
    v.write compact ++ rest ≠ c :: after := by
  obtain ⟨first, tail, written, noStop⟩ := write_head compact v
  rw [written]
  rintro ⟨⟩
  exact noStop stop

theorem plain_append_inj {v w : Value} (plain : v.opening? = none)
    (spelled : Spelled v.doubles w.doubles) {rest after : List Char} (ends : Stops rest)
    (stops : Stops after) (same : v.write compact ++ rest = w.write compact ++ after) :
    v = w ∧ rest = after := by
  have other : w.opening? = none := opening_eq ends stops same ▸ plain
  exact flat_append_inj (isFlat_of_opening plain) (isFlat_of_opening other) spelled ends stops same

mutual

theorem write_append_inj : ∀ (v w : Value) {rest after : List Char},
    Spelled v.doubles w.doubles → Stops rest → Stops after →
      v.write compact ++ rest = w.write compact ++ after → v = w ∧ rest = after
  | .arr items, w, rest, after, spelled, ends, stops, same => by
      have kind := opening_eq ends stops same
      cases w with
      | arr others =>
          simp only [Value.write, List.cons_append, List.append_assoc, List.cons.injEq, true_and,
            List.nil_append] at same
          obtain ⟨rfl, rfl⟩ := writeItems_inj items others spelled same
          exact ⟨rfl, rfl⟩
      | null | bool | int | float | str | obj => cases kind
  | .obj fields, w, rest, after, spelled, ends, stops, same => by
      have kind := opening_eq ends stops same
      cases w with
      | obj others =>
          simp only [Value.write, List.cons_append, List.append_assoc, List.cons.injEq, true_and,
            List.nil_append] at same
          obtain ⟨rfl, rfl⟩ := writeFields_inj fields others spelled same
          exact ⟨rfl, rfl⟩
      | null | bool | int | float | str | arr => cases kind
  | .str s, w, rest, after, _, ends, stops, same => by
      have kind := opening_eq ends stops same
      cases w with
      | str t =>
          simp only [Value.write] at same
          obtain ⟨rfl, rfl⟩ := write_text_inj same
          exact ⟨rfl, rfl⟩
      | null | bool | int | float | arr | obj => cases kind
  | .null, _, _, _, spelled, ends, stops, same => plain_append_inj rfl spelled ends stops same
  | .bool _, _, _, _, spelled, ends, stops, same => plain_append_inj rfl spelled ends stops same
  | .int _, _, _, _, spelled, ends, stops, same => plain_append_inj rfl spelled ends stops same
  | .float _, _, _, _, spelled, ends, stops, same => plain_append_inj rfl spelled ends stops same

theorem writeItems_inj : ∀ (items others : List Value) {rest after : List Char},
    Spelled (itemsDoubles items) (itemsDoubles others) →
      writeItems compact items ++ ']' :: rest = writeItems compact others ++ ']' :: after →
        items = others ∧ rest = after
  | [], [], _, _, _, same => by simpa [writeItems] using same
  | [], w :: others, _, _, _, same => by
      rw [write_cons_items] at same
      exact absurd same.symm (write_ne_stopping (by decide) w _ _)
  | v :: items, [], _, _, _, same => by
      rw [write_cons_items] at same
      exact absurd same (write_ne_stopping (by decide) v _ _)
  | v :: items, w :: others, rest, after, spelled, same => by
      rw [write_cons_items, write_cons_items] at same
      have ends := stops_behind ']' (by decide)
      obtain ⟨rfl, tail⟩ := write_append_inj v w spelled.left (ends _ _ _) (ends _ _ _) same
      rcases behind_inj (by decide) tail with ⟨last, final, rfl⟩ | ⟨_, _, tails⟩
      · rw [List.isEmpty_iff] at last final
        rw [last, final]
        exact ⟨rfl, rfl⟩
      · obtain ⟨rfl, rfl⟩ := writeItems_inj items others spelled.right tails
        exact ⟨rfl, rfl⟩

theorem writeFields_inj : ∀ (fields others : Fields) {rest after : List Char},
    Spelled (fieldsDoubles fields) (fieldsDoubles others) →
      writeFields compact fields ++ '}' :: rest = writeFields compact others ++ '}' :: after →
        fields = others ∧ rest = after
  | [], [], _, _, _, same => by simpa [writeFields] using same
  | [], (k, w) :: others, _, _, _, same => by
      rw [write_cons_fields] at same
      cases same
  | (k, v) :: fields, [], _, _, _, same => by
      rw [write_cons_fields] at same
      cases same
  | (k, v) :: fields, (l, w) :: others, rest, after, spelled, same => by
      rw [write_cons_fields, write_cons_fields] at same
      obtain ⟨rfl, member⟩ := write_text_inj same
      have ends := stops_behind '}' (by decide)
      obtain ⟨rfl, tail⟩ := write_append_inj v w spelled.left (ends _ _ _) (ends _ _ _)
        (List.cons.inj member).2
      rcases behind_inj (by decide) tail with ⟨last, final, rfl⟩ | ⟨_, _, tails⟩
      · rw [List.isEmpty_iff] at last final
        rw [last, final]
        exact ⟨rfl, rfl⟩
      · obtain ⟨rfl, rfl⟩ := writeFields_inj fields others spelled.right tails
        exact ⟨rfl, rfl⟩

end

/-- A compact text is that of one value only. -/
theorem write_compact_injective {v w : Value} (spelled : Spelled v.doubles w.doubles)
    (same : v.write compact = w.write compact) : v = w := by
  exact (write_append_inj v w spelled stops_nil stops_nil (congrArg (· ++ []) same)).1

end FlowCorpus.Json
