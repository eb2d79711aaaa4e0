import FlowCorpus.Batch.Records
import FlowCorpus.Proofs.Json.Decodable
import FlowCorpus.Proofs.Json.Fields
import FlowCorpus.Proofs.Json.Grammar
import FlowCorpus.Proofs.Json.Numeral

/-!
# Values that were read are read again

The reader produces readable values: no integer has too many digits, every double is one that
rounding produces, no object has a key twice, and nothing is nested too deeply. Every readable value
is read back from its text, so that a value that was read once survives being written.
-/

set_option autoImplicit false

namespace FlowCorpus.Json

open FlowCorpus.Number FlowCorpus.Text

mutual

/-- A value that is read, with room for so many open lists and objects. -/
def Value.Readable : Value → Nat → Prop
  | .int n, _ => (natDigits n.natAbs).length ≤ digitLimit
  | .float x, _ => x.IsCanonical
  | .arr items, room => 0 < room ∧ ItemsReadable items (room - 1)
  | .obj fields, room =>
    0 < room ∧ (fields.map Prod.fst).Nodup ∧ FieldsReadable fields (room - 1)
  | _, _ => True

def ItemsReadable : List Value → Nat → Prop
  | [], _ => True
  | v :: rest, room => v.Readable room ∧ ItemsReadable rest room

def FieldsReadable : Fields → Nat → Prop
  | [], _ => True
  | (_, v) :: rest, room => v.Readable room ∧ FieldsReadable rest room

end

theorem itemsReadable_iff {items : List Value} {room : Nat} :
    ItemsReadable items room ↔ ∀ item ∈ items, item.Readable room := by
  induction items with
  | nil => simp [ItemsReadable]
  | cons item rest ih => simp [ItemsReadable, ih]

theorem fieldsReadable_iff {fields : Fields} {room : Nat} :
    FieldsReadable fields room ↔ ∀ field ∈ fields, field.2.Readable room := by
  induction fields with
  | nil => simp [FieldsReadable]
  | cons field rest ih => simp [FieldsReadable, ih]

/-! ## What is read is readable -/

theorem Fields.mem_set {key : LooseText} {value : Value} {fields : Fields}
    {field : LooseText × Value} (member : field ∈ fields.set key value) :
    field = (key, value) ∨ field ∈ fields := by
  induction fields with
  | nil => exact .inl (List.mem_singleton.mp member)
  | cons first rest ih =>
      obtain ⟨other, old⟩ := first
      unfold Fields.set at member
      split at member
      · rcases List.mem_cons.mp member with same | later
        · exact .inl same
        · exact .inr (List.mem_cons_of_mem _ later)
      · rcases List.mem_cons.mp member with same | later
        · exact .inr (same ▸ List.mem_cons_self)
        · exact (ih later).imp_right (List.mem_cons_of_mem _)

theorem Fields.keys_set_of_mem {key : LooseText} {fields : Fields}
    (there : key ∈ fields.map Prod.fst) (value : Value) :
    (fields.set key value).map Prod.fst = fields.map Prod.fst := by
  induction fields with
  | nil => cases there
  | cons first rest ih =>
      obtain ⟨other, old⟩ := first
      unfold Fields.set
      split
      · rename_i same
        simp [same]
      · rename_i different
        rw [List.map_cons, List.mem_cons] at there
        rw [List.map_cons, List.map_cons, ih (there.resolve_left (Ne.symm different))]

theorem Fields.nodup_set {fields : Fields} (distinct : (fields.map Prod.fst).Nodup)
    (key : LooseText) (value : Value) : ((fields.set key value).map Prod.fst).Nodup := by
  by_cases there : key ∈ fields.map Prod.fst
  · rwa [keys_set_of_mem there]
  · rw [set_of_not_mem there, List.map_append]
    exact List.nodup_append.mpr ⟨distinct, by simp, by
      rintro other member _ (⟨⟩ | ⟨_, ⟨⟩⟩) rfl
      exact there member⟩

theorem Fields.fresh_of_nodup {fields rest : Fields} {key : LooseText} {value : Value}
    (distinct : ((fields ++ (key, value) :: rest).map Prod.fst).Nodup) :
    key ∉ fields.map Prod.fst := by
  rw [List.map_append, List.nodup_append] at distinct
  exact fun member => distinct.2.2 key member key (by simp) rfl

theorem readable_numberFrom {negative : Bool} {whole rest left : List Char} {v : Value}
    (digits : AllDigits whole) (success : numberFrom negative whole rest = .ok (v, left))
    (room : Nat) : v.Readable room := by
  unfold numberFrom at success
  split at success
  · split at success
    · cases success
    · rename_i short
      cases success
      have value : (withSign negative (digitsValue whole)).natAbs = digitsValue whole := by
        unfold withSign
        split <;> simp
      simp only [Value.Readable, value]
      rw [length_natDigits_le_iff (by decide)]
      exact (digitsValue_lt digits).trans_le (Nat.pow_le_pow_right (by decide) (by omega))
  · cases success
    exact Binary64.isCanonical_ofDecimal _ _ _
  · cases success
    exact Binary64.isCanonical_ofDecimal _ _ _

theorem readable_zero (room : Nat) : (Value.int 0).Readable room := by
  simp only [Value.Readable]
  decide

theorem readable_readScalar {s rest : List Char} {v : Value}
    (success : readScalar s = .ok (v, rest)) (room : Nat) : v.Readable room := by
  have number {negative : Bool} {s : List Char} (success : readNumber negative s = .ok (v, rest)) :
      v.Readable room := by
    rcases taken : takeDigits s with ⟨whole, behind⟩
    rw [readNumber_eq taken] at success
    split at success
    · cases success
    · split at success
      · cases success
        exact readable_zero room
      · refine readable_numberFrom (fun c member => ?_) success room
        have front : whole = s.takeWhile Text.isDigit := (Prod.mk.inj taken).1.symm
        rw [front] at member
        exact List.mem_takeWhile_imp member
  unfold readScalar at success
  split at success
  · rename_i taken found
    cases success
    obtain ⟨⟨word, value⟩, member, matched⟩ := List.exists_of_findSome?_eq_some found
    obtain ⟨behind, -, same⟩ := Option.map_eq_some_iff.mp matched
    cases same
    simp only [wordValues, List.mem_cons, Prod.mk.injEq, List.not_mem_nil, or_false] at member
    rcases member with ⟨-, rfl⟩ | ⟨-, rfl⟩ | ⟨-, rfl⟩ | ⟨-, rfl⟩ | ⟨-, rfl⟩ | ⟨-, rfl⟩ <;> trivial
  · split at success <;> exact number success

def Stage.Readable (room : Nat) : Stage → Prop
  | .value => True
  | .items found => ∀ item ∈ found, item.Readable room
  | .members found => (found.map Prod.fst).Nodup ∧ ∀ field ∈ found, field.2.Readable room

/-- The room around the value that is read at a stage: one more than inside it. -/
def Stage.around (room : Nat) : Stage → Nat
  | .value => room
  | .items _ | .members _ => room + 1

theorem Reads.readable {room : Nat} {stage : Stage} {s rest : List Char} {v : Value}
    (reads : Reads room stage s v rest) (found : stage.Readable room) :
    v.Readable (stage.around room) := by
  induction reads with
  | scalar _ success => exact readable_readScalar success _
  | text success => trivial
  | emptyList closed => exact ⟨Nat.succ_pos _, trivial⟩
  | list opened items ih => exact ih fun _ member => nomatch member
  | emptyObject closed => exact ⟨Nat.succ_pos _, List.nodup_nil, trivial⟩
  | object opened members ih => exact ih ⟨List.nodup_nil, fun _ member => nomatch member⟩
  | lastItem first closed ih =>
      refine ⟨Nat.succ_pos _, itemsReadable_iff.mpr fun item member => ?_⟩
      rcases List.mem_cons.mp (List.mem_reverse.mp member) with rfl | earlier
      · exact ih trivial
      · exact found item earlier
  | item first comma others firstIH othersIH =>
      refine othersIH fun item member => ?_
      rcases List.mem_cons.mp member with rfl | earlier
      · exact firstIH trivial
      · exact found item earlier
  | lastMember name mark first closed ih =>
      refine ⟨Nat.succ_pos _, Fields.nodup_set found.1 _ _, fieldsReadable_iff.mpr ?_⟩
      intro field member
      rcases Fields.mem_set member with rfl | earlier
      · exact ih trivial
      · exact found.2 field earlier
  | member name mark first comma others firstIH othersIH =>
      refine othersIH ⟨Fields.nodup_set found.1 _ _, fun field member => ?_⟩
      rcases Fields.mem_set member with rfl | earlier
      · exact firstIH trivial
      · exact found.2 field earlier

/-! ## What is readable is read back -/

theorem readScalar_flat {v : Value} (flat : v.isFlat = true) {room : Nat}
    (readable : v.Readable room) : readScalar (v.write spaced) = .ok (v, []) := by
  cases v with
  | null => rfl
  | bool b => cases b <;> rfl
  | int n =>
      simp only [Value.write]
      exact readScalar_intText readable
  | float x =>
      simp only [Value.write]
      exact readScalar_text readable
  | str | arr | obj => cases flat

theorem isJsonBlank_of_not_stopping {c : Char} (goes : c ∉ stopping) : isJsonBlank c = false := by
  simp only [stopping, List.mem_cons, not_or] at goes
  simp [isJsonBlank, goes]

theorem skipBlanks_of_head {c : Char} (noBlank : isJsonBlank c = false) (s : List Char) :
    skipBlanks (c :: s) = c :: s :=
  List.dropWhile_cons_of_neg (by simp [noBlank])

/-- A written value stands where blanks were skipped, and what was opened is not closed there. -/
theorem skipBlanks_write (v : Value) (rest : List Char) :
    skipBlanks (v.write spaced ++ rest) = v.write spaced ++ rest ∧
      (v.write spaced ++ rest).head? ≠ some ']' := by
  obtain ⟨c, tail, written, goes⟩ := write_head spaced v
  have noBracket : c ≠ ']' := fun same => goes (same ▸ by decide)
  rw [written, List.cons_append]
  exact ⟨skipBlanks_of_head (isJsonBlank_of_not_stopping goes) _, by simpa using noBracket⟩

theorem scalar_write {v : Value} (flat : v.isFlat = true) (rest : List Char) :
    Scalar (v.write spaced ++ rest) := by
  have letters : ∀ c, isFlatChar c = true → c ≠ '"' ∧ c ≠ '[' ∧ c ≠ '{' := by
    intro c inside
    refine ⟨?_, ?_, ?_⟩ <;> (rintro rfl; cases inside)
  obtain ⟨c, tail, written, _⟩ := write_head spaced v
  rw [written]
  rintro d ⟨⟩
  exact letters c (isFlatChar_of_mem_write flat (written ▸ List.mem_cons_self))

theorem reads_flat {v : Value} (flat : v.isFlat = true) {room : Nat} (readable : v.Readable room)
    {rest : List Char} (stops : Stops rest) :
    Reads room .value (v.write spaced ++ rest) v rest := by
  refine .scalar (scalar_write flat rest) ?_
  rw [readScalar_append stops, readScalar_flat flat readable]
  rfl

/-- The text of some items begins with the first one. -/
theorem writeItems_cons (v : Value) (items : List Value) :
    ∃ tail, writeItems spaced (v :: items) = v.write spaced ++ tail := by
  cases items with
  | nil => exact ⟨[], by simp [writeItems]⟩
  | cons next more =>
      exact ⟨spaced.item ++ writeItems spaced (next :: more), by simp [writeItems]⟩

theorem skipBlanks_writeItems (v : Value) (items : List Value) (rest : List Char) :
    skipBlanks (writeItems spaced (v :: items) ++ rest) = writeItems spaced (v :: items) ++ rest ∧
      (writeItems spaced (v :: items) ++ rest).head? ≠ some ']' := by
  obtain ⟨tail, shape⟩ := writeItems_cons v items
  rw [shape, List.append_assoc]
  exact skipBlanks_write v _

theorem skipBlanks_writeFields (field : LooseText × Value) (fields : Fields) (rest : List Char) :
    skipBlanks (writeFields spaced (field :: fields) ++ rest) =
        writeFields spaced (field :: fields) ++ rest ∧
      (writeFields spaced (field :: fields) ++ rest).head? ≠ some '}' := by
  obtain ⟨tail, shape⟩ : ∃ tail, writeFields spaced (field :: fields) = '"' :: tail := by
    obtain ⟨key, v⟩ := field
    cases fields <;> exact ⟨_, by simp only [writeFields, writeText]; rfl⟩
  rw [shape]
  exact ⟨skipBlanks_of_head rfl _, by simp⟩

theorem skipBlanks_blank (s : List Char) : skipBlanks (' ' :: s) = skipBlanks s :=
  List.dropWhile_cons_of_pos rfl

/-- One member in front of what ends it. -/
theorem reads_member (key : LooseText) {v : Value} {room : Nat}
    {after : List Char} (reads : Reads room .value (v.write spaced ++ after) v after) :
    ∃ colon value, readText (key.points.flatMap writePoint ++ '"' :: ':' :: ' ' ::
        (v.write spaced ++ after)) = .ok (key, colon) ∧
      skipBlanks colon = ':' :: value ∧ Reads room .value (skipBlanks value) v after := by
  refine ⟨_, _, readText_written _ _, skipBlanks_of_head rfl _, ?_⟩
  rwa [skipBlanks_blank, (skipBlanks_write _ _).1]

mutual

theorem reads_write : ∀ (v : Value) {room : Nat} {rest : List Char}, v.Readable room → Stops rest →
    Reads room .value (v.write spaced ++ rest) v rest
  | .arr items, room, rest, readable, _ => by
      obtain ⟨room, rfl⟩ : ∃ less, room = less + 1 := ⟨room - 1, by have := readable.1; omega⟩
      have shape : (Value.arr items).write spaced ++ rest =
          '[' :: (writeItems spaced items ++ ']' :: rest) := by simp [Value.write]
      rw [shape]
      cases items with
      | nil => exact .emptyList (skipBlanks_of_head rfl rest)
      | cons v more =>
          obtain ⟨front, opened⟩ := skipBlanks_writeItems v more (']' :: rest)
          have reads := reads_writeItems (v :: more) [] rest (List.cons_ne_nil _ _) readable.2
          exact .list (front.symm ▸ opened) (front.symm ▸ reads)
  | .obj fields, room, rest, readable, _ => by
      obtain ⟨room, rfl⟩ : ∃ less, room = less + 1 := ⟨room - 1, by have := readable.1; omega⟩
      have shape : (Value.obj fields).write spaced ++ rest =
          '{' :: (writeFields spaced fields ++ '}' :: rest) := by simp [Value.write]
      rw [shape]
      cases fields with
      | nil => exact .emptyObject (skipBlanks_of_head rfl rest)
      | cons field more =>
          obtain ⟨front, opened⟩ := skipBlanks_writeFields field more ('}' :: rest)
          have reads := reads_writeFields (field :: more) [] rest (List.cons_ne_nil _ _)
            readable.2.1 readable.2.2
          exact .object (front.symm ▸ opened) (front.symm ▸ reads)
  | .str s, _, rest, _, _ => by
      have shape : (Value.str s).write spaced ++ rest =
          '"' :: (s.points.flatMap writePoint ++ '"' :: rest) := by simp [Value.write, writeText]
      rw [shape]
      exact .text (readText_written s rest)
  | .null, _, _, readable, stops => reads_flat rfl readable stops
  | .bool _, _, _, readable, stops => reads_flat (isFlat_of_opening rfl) readable stops
  | .int _, _, _, readable, stops => reads_flat rfl readable stops
  | .float _, _, _, readable, stops => reads_flat rfl readable stops

theorem reads_writeItems : ∀ (items found : List Value) {room : Nat} (rest : List Char),
    items ≠ [] → ItemsReadable items room →
      Reads room (.items found) (writeItems spaced items ++ ']' :: rest)
        (.arr (found.reverse ++ items)) rest
  | [], _, _, _, nonempty, _ => absurd rfl nonempty
  | [v], found, room, rest, _, readable => by
      have first := reads_write v readable.1 (stops_cons (c := ']') (by decide) rest)
      rw [← List.reverse_cons]
      simp only [writeItems]
      exact .lastItem first (skipBlanks_of_head rfl rest)
  | v :: next :: more, found, room, rest, _, readable => by
      have shape : writeItems spaced (v :: next :: more) ++ ']' :: rest =
          v.write spaced ++ ',' :: ' ' :: (writeItems spaced (next :: more) ++ ']' :: rest) := by
        simp [writeItems, spaced]
      have first := reads_write v readable.1 (stops_cons (c := ',') (by decide)
        (' ' :: (writeItems spaced (next :: more) ++ ']' :: rest)))
      have others := reads_writeItems (next :: more) (v :: found) rest (List.cons_ne_nil _ _)
        readable.2
      rw [List.reverse_cons, List.append_assoc] at others
      rw [shape]
      refine .item first (skipBlanks_of_head rfl _) ?_
      rw [skipBlanks_blank, (skipBlanks_writeItems _ _ _).1]
      exact others

theorem reads_writeFields : ∀ (fields found : Fields) {room : Nat} (rest : List Char),
    fields ≠ [] → ((found ++ fields).map Prod.fst).Nodup → FieldsReadable fields room →
      Reads room (.members found) (writeFields spaced fields ++ '}' :: rest)
        (.obj (found ++ fields)) rest
  | [], _, _, _, nonempty, _, _ => absurd rfl nonempty
  | [(key, v)], found, room, rest, _, distinct, readable => by
      have shape : writeFields spaced [(key, v)] ++ '}' :: rest =
          '"' :: (key.points.flatMap writePoint ++ '"' :: ':' :: ' ' ::
            (v.write spaced ++ '}' :: rest)) := by
        simp [writeFields, writeText, spaced]
      have first := reads_write v readable.1 (stops_cons (c := '}') (by decide) rest)
      obtain ⟨colon, value, name, mark, member⟩ := reads_member key first
      rw [shape, ← Fields.set_of_not_mem (Fields.fresh_of_nodup distinct)]
      exact .lastMember name mark member (skipBlanks_of_head rfl rest)
  | (key, v) :: next :: more, found, room, rest, _, distinct, readable => by
      have shape : writeFields spaced ((key, v) :: next :: more) ++ '}' :: rest =
          '"' :: (key.points.flatMap writePoint ++ '"' :: ':' :: ' ' :: (v.write spaced ++
            ',' :: ' ' :: (writeFields spaced (next :: more) ++ '}' :: rest))) := by
        simp [writeFields, writeText, spaced]
      have first := reads_write v readable.1 (stops_cons (c := ',') (by decide)
        (' ' :: (writeFields spaced (next :: more) ++ '}' :: rest)))
      obtain ⟨colon, value, name, mark, member⟩ := reads_member key first
      have placed := Fields.set_of_not_mem (Fields.fresh_of_nodup distinct) v
      rw [List.append_cons] at distinct
      have others := reads_writeFields (next :: more) (found ++ [(key, v)]) rest
        (List.cons_ne_nil _ _) distinct readable.2
      rw [shape, List.append_cons found]
      refine .member name mark member (skipBlanks_of_head rfl _) ?_
      rw [skipBlanks_blank, (skipBlanks_writeFields _ _ _).1, placed]
      exact others

end

/-! ## Whole texts -/

theorem readable_of_parse {s : List Char} {v : Value} (success : parseChars s = .ok v) :
    v.Readable openLimit := by
  rw [parseChars_eq] at success
  obtain ⟨rest, reads, -⟩ := parseWithin_ok_iff.mp success
  exact reads.readable trivial

theorem parse_render {v : Value} (readable : v.Readable openLimit) : parse v.render = .ok v := by
  have reads := reads_write v readable stops_nil
  rw [← (skipBlanks_write _ []).1] at reads
  unfold parse Value.render
  rw [String.toList_ofList, parseChars_eq]
  refine parseWithin_ok_iff.mpr ⟨[], ?_, rfl⟩
  rwa [List.append_nil] at reads

theorem decode_of_readable {v : Value} (readable : v.Readable openLimit) :
    Batch.decode v.render = .ok v := by
  unfold Batch.decode
  rw [parse_render readable]

/-- A value that was read is read again from its text. -/
theorem decode_render {s : String} {v : Value} (success : Batch.decode s = .ok v) :
    Batch.decode v.render = .ok v := by
  unfold Batch.decode at success
  split at success
  · rename_i value read
    cases success
    exact decode_of_readable (readable_of_parse read)
  · cases success
  · cases success
  · cases success

end FlowCorpus.Json
