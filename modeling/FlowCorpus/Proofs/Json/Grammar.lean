import FlowCorpus.Proofs.Json.Locality

/-!
# Reading as a relation

What the reader takes from a text, without its fuel: a value, or the rest of a list or of an object
behind the parts that were read. The reader succeeds with just this, as soon as it has two calls
for every character. Therefore more text behind a value or more room around it change nothing.
-/

set_option autoImplicit false

namespace FlowCorpus.Json

open FlowCorpus.Text

/-- Where the reader stands: before a value, or inside a list or an object of which something was
read. -/
inductive Stage where
  | value
  | items (found : List Value)
  | members (found : Fields)

def Stage.read : Stage → Nat → Nat → List Char → Reader Value
  | .value => readValue
  | .items found => fun fuel room => readItems fuel room found
  | .members found => fun fuel room => readMembers fuel room found

/-- A text that begins with the mark of neither a text nor a list nor an object. -/
def Scalar (s : List Char) : Prop :=
  ∀ c ∈ s.head?, c ≠ '"' ∧ c ≠ '[' ∧ c ≠ '{'

/-- With room for so many lists and objects inside each other, a value is read at a stage, and so
much of the text is left. -/
inductive Reads : Nat → Stage → List Char → Value → List Char → Prop where
  | scalar {room : Nat} {s rest : List Char} {v : Value} (plain : Scalar s)
      (success : readScalar s = .ok (v, rest)) : Reads room .value s v rest
  | text {room : Nat} {s rest : List Char} {text : LooseText}
      (success : readText s = .ok (text, rest)) : Reads room .value ('"' :: s) (.str text) rest
  | emptyList {room : Nat} {s rest : List Char} (closed : skipBlanks s = ']' :: rest) :
      Reads (room + 1) .value ('[' :: s) (.arr []) rest
  | list {room : Nat} {s rest : List Char} {v : Value} (opened : (skipBlanks s).head? ≠ some ']')
      (items : Reads room (.items []) (skipBlanks s) v rest) :
      Reads (room + 1) .value ('[' :: s) v rest
  | emptyObject {room : Nat} {s rest : List Char} (closed : skipBlanks s = '}' :: rest) :
      Reads (room + 1) .value ('{' :: s) (.obj []) rest
  | object {room : Nat} {s rest : List Char} {v : Value}
      (opened : (skipBlanks s).head? ≠ some '}')
      (members : Reads room (.members []) (skipBlanks s) v rest) :
      Reads (room + 1) .value ('{' :: s) v rest
  | lastItem {room : Nat} {found : List Value} {s behind rest : List Char} {item : Value}
      (first : Reads room .value s item behind) (closed : skipBlanks behind = ']' :: rest) :
      Reads room (.items found) s (.arr (item :: found).reverse) rest
  | item {room : Nat} {found : List Value} {s behind next rest : List Char} {item v : Value}
      (first : Reads room .value s item behind) (comma : skipBlanks behind = ',' :: next)
      (others : Reads room (.items (item :: found)) (skipBlanks next) v rest) :
      Reads room (.items found) s v rest
  | lastMember {room : Nat} {found : Fields} {s colon value behind rest : List Char}
      {key : LooseText} {member : Value} (name : readText s = .ok (key, colon))
      (mark : skipBlanks colon = ':' :: value)
      (first : Reads room .value (skipBlanks value) member behind)
      (closed : skipBlanks behind = '}' :: rest) :
      Reads room (.members found) ('"' :: s) (.obj (found.set key member)) rest
  | member {room : Nat} {found : Fields} {s colon value behind next rest : List Char}
      {key : LooseText} {member v : Value} (name : readText s = .ok (key, colon))
      (mark : skipBlanks colon = ':' :: value)
      (first : Reads room .value (skipBlanks value) member behind)
      (comma : skipBlanks behind = ',' :: next)
      (others : Reads room (.members (found.set key member)) (skipBlanks next) v rest) :
      Reads room (.members found) ('"' :: s) v rest

/-! ## The reader reads what the relation says -/

theorem reads_of_read {fuel room : Nat} {stage : Stage} {s rest : List Char} {v : Value}
    (success : stage.read fuel room s = .ok (v, rest)) : Reads room stage s v rest := by
  induction fuel generalizing room stage s rest v with
  | zero => cases stage <;> cases success
  | succ fuel ih =>
      cases stage with
      | value =>
          simp only [Stage.read, readValue] at success
          split at success
          · split at success <;> cases success
            exact .text ‹_›
          · cases room with
            | zero => cases success
            | succ room =>
                simp only [Nat.add_one_ne_zero, ↓reduceIte, Nat.add_one_sub_one] at success
                split at success
                · cases success
                  exact .emptyList ‹_›
                · refine .list ?_ (ih success)
                  intro closed
                  obtain ⟨behind, shape⟩ := List.head?_eq_some_iff.mp closed
                  rename_i opened
                  exact opened behind shape
          · cases room with
            | zero => cases success
            | succ room =>
                simp only [Nat.add_one_ne_zero, ↓reduceIte, Nat.add_one_sub_one] at success
                split at success
                · cases success
                  exact .emptyObject ‹_›
                · refine .object ?_ (ih success)
                  intro closed
                  obtain ⟨behind, shape⟩ := List.head?_eq_some_iff.mp closed
                  rename_i opened
                  exact opened behind shape
          · rename_i noText noList noObject
            refine .scalar (fun c head => ?_) success
            obtain ⟨behind, rfl⟩ := List.head?_eq_some_iff.mp head
            refine ⟨?_, ?_, ?_⟩ <;> rintro rfl
            · exact noText behind rfl
            · exact noList behind rfl
            · exact noObject behind rfl
      | items found =>
          simp only [Stage.read, readItems] at success
          split at success
          · cases success
          · rename_i item behind first
            split at success
            · exact .item (ih first) ‹_› (ih success)
            · cases success
              exact .lastItem (ih first) ‹_›
            · cases success
      | members found =>
          simp only [Stage.read, readMembers] at success
          split at success
          · split at success
            · cases success
            · split at success
              · split at success
                · cases success
                · rename_i member behind first
                  split at success
                  · exact .member ‹_› ‹_› (ih first) ‹_› (ih success)
                  · cases success
                    exact .lastMember ‹_› ‹_› (ih first) ‹_›
                  · cases success
              · cases success
          · cases success

theorem cons_suffix {s rest : List Char} {c : Char} (shape : skipBlanks s = c :: rest) :
    c :: rest <:+ s :=
  shape ▸ skipBlanks_suffix s

theorem Reads.suffix {room : Nat} {stage : Stage} {s rest : List Char} {v : Value}
    (reads : Reads room stage s v rest) : rest <:+ s := by
  have tail {c : Char} {s rest : List Char} (shape : skipBlanks s = c :: rest) : rest <:+ s :=
    (List.suffix_cons c rest).trans (cons_suffix shape)
  induction reads with
  | scalar _ success => exact readScalar_suffix success
  | text success => exact (readText_append [] success).2.trans (List.suffix_cons _ _)
  | emptyList closed | emptyObject closed => exact (tail closed).trans (List.suffix_cons _ _)
  | list _ _ ih | object _ _ ih =>
      exact (ih.trans (skipBlanks_suffix _)).trans (List.suffix_cons _ _)
  | lastItem _ closed ih => exact (tail closed).trans ih
  | item _ comma _ first others =>
      exact (others.trans (skipBlanks_suffix _)).trans ((tail comma).trans first)
  | lastMember name mark _ closed ih =>
      have value := (tail mark).trans (readText_append [] name).2
      have member := ih.trans ((skipBlanks_suffix _).trans value)
      exact ((tail closed).trans member).trans (List.suffix_cons _ _)
  | member name mark _ comma _ first others =>
      have value := (tail mark).trans (readText_append [] name).2
      have member := first.trans ((skipBlanks_suffix _).trans value)
      have next := (skipBlanks_suffix _).trans ((tail comma).trans member)
      exact (others.trans next).trans (List.suffix_cons _ _)

/-- The calls that reading at a stage takes at most: two for every character, and one more inside a
list or an object. -/
def Stage.cost (s : List Char) : Stage → Nat
  | .value => 2 * s.length + 1
  | .items _ | .members _ => 2 * s.length + 2

theorem Stage.exists_fuel {stage : Stage} {s : List Char} {fuel : Nat}
    (enough : stage.cost s ≤ fuel) : ∃ less, fuel = less + 1 := by
  cases stage <;> exact ⟨fuel - 1, by simp only [Stage.cost] at enough; omega⟩

theorem readValue_scalar {s : List Char} (plain : Scalar s) (fuel room : Nat) :
    readValue (fuel + 1) room s = readScalar s := by
  cases s with
  | nil => rfl
  | cons c s =>
      obtain ⟨noText, noList, noObject⟩ := plain c rfl
      simp [readValue, noText, noList, noObject]

theorem readValue_list {s : List Char} (opened : (skipBlanks s).head? ≠ some ']')
    (fuel room : Nat) :
    readValue (fuel + 1) (room + 1) ('[' :: s) = readItems fuel room [] (skipBlanks s) := by
  simp only [readValue, Nat.add_one_ne_zero, ↓reduceIte, Nat.add_one_sub_one]
  split
  · rename_i rest shape
    exact absurd (congrArg List.head? shape) opened
  · rfl

theorem readValue_object {s : List Char} (opened : (skipBlanks s).head? ≠ some '}')
    (fuel room : Nat) :
    readValue (fuel + 1) (room + 1) ('{' :: s) = readMembers fuel room [] (skipBlanks s) := by
  simp only [readValue, Nat.add_one_ne_zero, ↓reduceIte, Nat.add_one_sub_one]
  split
  · rename_i rest shape
    exact absurd (congrArg List.head? shape) opened
  · rfl

/-- The reader reads what the relation says. -/
theorem read_of_reads {room : Nat} {stage : Stage} {s rest : List Char} {v : Value}
    (reads : Reads room stage s v rest) {fuel : Nat} (enough : stage.cost s ≤ fuel) :
    stage.read fuel room s = .ok (v, rest) := by
  induction reads generalizing fuel with
  | scalar plain success =>
      obtain ⟨fuel, rfl⟩ := Stage.exists_fuel enough
      exact (readValue_scalar plain _ _).trans success
  | text success =>
      obtain ⟨fuel, rfl⟩ := Stage.exists_fuel enough
      simp only [Stage.read, readValue, success]
  | emptyList closed =>
      obtain ⟨fuel, rfl⟩ := Stage.exists_fuel enough
      simp [Stage.read, readValue, closed]
  | emptyObject closed =>
      obtain ⟨fuel, rfl⟩ := Stage.exists_fuel enough
      simp [Stage.read, readValue, closed]
  | @list _ s _ _ opened _ ih =>
      obtain ⟨fuel, rfl⟩ := Stage.exists_fuel enough
      have blanks := (skipBlanks_suffix s).length_le
      simp only [Stage.cost, List.length_cons] at enough ih
      exact (readValue_list opened _ _).trans (ih (by omega))
  | @object _ s _ _ opened _ ih =>
      obtain ⟨fuel, rfl⟩ := Stage.exists_fuel enough
      have blanks := (skipBlanks_suffix s).length_le
      simp only [Stage.cost, List.length_cons] at enough ih
      exact (readValue_object opened _ _).trans (ih (by omega))
  | lastItem first closed ih =>
      obtain ⟨fuel, rfl⟩ := Stage.exists_fuel enough
      simp only [Stage.cost] at enough ih
      have item : readValue fuel _ _ = _ := ih (by omega)
      simp only [Stage.read, readItems, item, closed]
  | @item _ _ _ _ next _ _ _ first comma others firstIH othersIH =>
      obtain ⟨fuel, rfl⟩ := Stage.exists_fuel enough
      have behind := first.suffix.length_le
      have ended := (cons_suffix comma).length_le
      have blanks := (skipBlanks_suffix next).length_le
      simp only [Stage.cost, List.length_cons] at enough firstIH othersIH ended
      have item : readValue fuel _ _ = _ := firstIH (by omega)
      have rest : readItems fuel _ _ _ = _ := othersIH (by omega)
      simp only [Stage.read, readItems, item, comma, rest]
  | @lastMember _ _ _ _ value _ _ _ _ name mark first closed ih =>
      obtain ⟨fuel, rfl⟩ := Stage.exists_fuel enough
      have named := (readText_append [] name).2.length_le
      have marked := (cons_suffix mark).length_le
      have blanks := (skipBlanks_suffix value).length_le
      simp only [Stage.cost, List.length_cons] at enough ih marked
      have member : readValue fuel _ _ = _ := ih (by omega)
      simp only [Stage.read, readMembers, name, mark, member, closed]
  | @member _ _ _ _ value _ next _ _ _ _ name mark first comma others firstIH othersIH =>
      obtain ⟨fuel, rfl⟩ := Stage.exists_fuel enough
      have named := (readText_append [] name).2.length_le
      have marked := (cons_suffix mark).length_le
      have blanks := (skipBlanks_suffix value).length_le
      have behind := first.suffix.length_le
      have ended := (cons_suffix comma).length_le
      have further := (skipBlanks_suffix next).length_le
      simp only [Stage.cost, List.length_cons] at enough firstIH othersIH marked ended
      have member : readValue fuel _ _ = _ := firstIH (by omega)
      have rest : readMembers fuel _ _ _ = _ := othersIH (by omega)
      simp only [Stage.read, readMembers, name, mark, member, comma, rest]

/-! ## What stands around a value -/

theorem head?_append_eq {s : List Char} (some : s ≠ []) (more : List Char) :
    (s ++ more).head? = s.head? := by
  cases s with
  | nil => exact absurd rfl some
  | cons c s => rfl

theorem readScalar_nil : readScalar [] = .error .malformed := rfl

theorem Reads.ne_nil {room : Nat} {stage : Stage} {s rest : List Char} {v : Value}
    (reads : Reads room stage s v rest) : s ≠ [] := by
  induction reads with
  | scalar _ success =>
      rintro rfl
      cases readScalar_nil.symm.trans success
  | lastItem _ _ ih => exact ih
  | item _ _ _ ih _ => exact ih
  | _ => exact List.cons_ne_nil _ _

/-- More text behind a value and more room around it change nothing. -/
theorem Reads.append {room wide : Nat} {stage : Stage} {s rest more : List Char} {v : Value}
    (reads : Reads room stage s v rest) (wider : room ≤ wide) (stops : Stops more) :
    Reads wide stage (s ++ more) v (rest ++ more) := by
  induction reads generalizing wide with
  | scalar plain success =>
      have some := (Reads.scalar plain success : Reads 0 _ _ _ _).ne_nil
      refine .scalar ?_ ?_
      · unfold Scalar
        rwa [head?_append_eq some]
      · rw [readScalar_append stops, success]
        rfl
  | text success => exact .text (readText_append more success).1
  | emptyList closed =>
      obtain ⟨wide, rfl⟩ : ∃ less, wide = less + 1 := ⟨wide - 1, by omega⟩
      exact .emptyList (skipBlanks_eq_cons closed more)
  | emptyObject closed =>
      obtain ⟨wide, rfl⟩ : ∃ less, wide = less + 1 := ⟨wide - 1, by omega⟩
      exact .emptyObject (skipBlanks_eq_cons closed more)
  | list opened items ih =>
      obtain ⟨wide, rfl⟩ : ∃ less, wide = less + 1 := ⟨wide - 1, by omega⟩
      have blanks := skipBlanks_append more items.ne_nil
      rw [List.cons_append]
      refine .list ?_ ?_
      · rwa [blanks, head?_append_eq items.ne_nil]
      · rw [blanks]
        exact ih (Nat.le_of_succ_le_succ wider)
  | object opened members ih =>
      obtain ⟨wide, rfl⟩ : ∃ less, wide = less + 1 := ⟨wide - 1, by omega⟩
      have blanks := skipBlanks_append more members.ne_nil
      rw [List.cons_append]
      refine .object ?_ ?_
      · rwa [blanks, head?_append_eq members.ne_nil]
      · rw [blanks]
        exact ih (Nat.le_of_succ_le_succ wider)
  | lastItem first closed ih => exact .lastItem (ih wider) (skipBlanks_eq_cons closed more)
  | item first comma others firstIH othersIH =>
      refine .item (firstIH wider) (skipBlanks_eq_cons comma more) ?_
      rw [skipBlanks_append more others.ne_nil]
      exact othersIH wider
  | lastMember name mark first closed ih =>
      refine .lastMember (readText_append more name).1 (skipBlanks_eq_cons mark more) ?_
        (skipBlanks_eq_cons closed more)
      rw [skipBlanks_append more first.ne_nil]
      exact ih wider
  | member name mark first comma others firstIH othersIH =>
      have value := skipBlanks_append more first.ne_nil
      have next := skipBlanks_append more others.ne_nil
      exact .member (readText_append more name).1 (skipBlanks_eq_cons mark more)
        (value ▸ firstIH wider) (skipBlanks_eq_cons comma more) (next ▸ othersIH wider)

/-! ## The mark of a value -/

theorem readNumber_scalar {negative : Bool} {s rest : List Char} {v : Value}
    (success : readNumber negative s = .ok (v, rest)) :
    (∃ n, v = .int n) ∨ ∃ x, v = .float x := by
  unfold readNumber at success
  split at success
  · cases success
  · cases success
    exact .inl ⟨_, rfl⟩
  · split at success
    · split at success <;> cases success
      exact .inl ⟨_, rfl⟩
    · cases success
      exact .inr ⟨_, rfl⟩
    · cases success
      exact .inr ⟨_, rfl⟩

theorem readScalar_ne {s rest : List Char} {v : Value} (success : readScalar s = .ok (v, rest)) :
    (∀ items, v ≠ .arr items) ∧ ∀ fields, v ≠ .obj fields := by
  have number {negative : Bool} {s : List Char} (success : readNumber negative s = .ok (v, rest)) :
      (∀ items, v ≠ .arr items) ∧ ∀ fields, v ≠ .obj fields := by
    rcases readNumber_scalar success with ⟨n, rfl⟩ | ⟨x, rfl⟩ <;> simp
  unfold readScalar at success
  split at success
  · rename_i taken found
    cases success
    obtain ⟨⟨word, value⟩, member, matched⟩ := List.exists_of_findSome?_eq_some found
    obtain ⟨behind, -, same⟩ := Option.map_eq_some_iff.mp matched
    cases same
    simp only [wordValues, List.mem_cons, Prod.mk.injEq, List.not_mem_nil, or_false] at member
    rcases member with ⟨-, rfl⟩ | ⟨-, rfl⟩ | ⟨-, rfl⟩ | ⟨-, rfl⟩ | ⟨-, rfl⟩ | ⟨-, rfl⟩ <;> simp
  · split at success <;> exact number success

/-- What a stage says about the value that is read: a list begins with a bracket and an object with
a brace. -/
def Stage.Marks (s : List Char) (v : Value) : Stage → Prop
  | .value =>
    (∀ items, v = .arr items → s.head? = some '[') ∧ ∀ fields, v = .obj fields → s.head? = some '{'
  | .items _ => ∃ items, v = .arr items
  | .members _ => ∃ fields, v = .obj fields

theorem Reads.marks {room : Nat} {stage : Stage} {s rest : List Char} {v : Value}
    (reads : Reads room stage s v rest) : stage.Marks s v := by
  induction reads with
  | scalar _ success =>
      obtain ⟨noList, noObject⟩ := readScalar_ne success
      exact ⟨fun items same => absurd same (noList items),
        fun fields same => absurd same (noObject fields)⟩
  | text success => exact ⟨nofun, nofun⟩
  | emptyList closed => exact ⟨fun _ _ => rfl, nofun⟩
  | list opened items ih =>
      obtain ⟨items, rfl⟩ := ih
      exact ⟨fun _ _ => rfl, nofun⟩
  | emptyObject closed => exact ⟨nofun, fun _ _ => rfl⟩
  | object opened members ih =>
      obtain ⟨fields, rfl⟩ := ih
      exact ⟨nofun, fun _ _ => rfl⟩
  | lastItem first closed ih => exact ⟨_, rfl⟩
  | item first comma others firstIH othersIH => exact othersIH
  | lastMember name mark first closed ih => exact ⟨_, rfl⟩
  | member name mark first comma others firstIH othersIH => exact othersIH

/-! ## Whole texts -/

/-- A whole text as one value, in which at most so many lists and objects may be open at once. -/
def parseWithin (room : Nat) (s : List Char) : Except ParseError Value :=
  match readValue (fuelFor s) room (skipBlanks s) with
  | .error e => .error e
  | .ok (value, rest) => if (skipBlanks rest).isEmpty then .ok value else .error .malformed

theorem parseChars_eq (s : List Char) : parseChars s = parseWithin openLimit s := rfl

theorem parseWithin_of_reads {room : Nat} {s rest : List Char} {v : Value}
    (reads : Reads room .value (skipBlanks s) v rest) :
    parseWithin room s = if (skipBlanks rest).isEmpty then .ok v else .error .malformed := by
  have enough : Stage.cost (skipBlanks s) .value ≤ fuelFor s := by
    have shorter := (skipBlanks_suffix s).length_le
    simp only [Stage.cost, fuelFor]
    omega
  have read : readValue (fuelFor s) room (skipBlanks s) = .ok (v, rest) :=
    read_of_reads reads enough
  unfold parseWithin
  rw [read]

theorem parseWithin_ok_iff {room : Nat} {s : List Char} {v : Value} :
    parseWithin room s = .ok v ↔
      ∃ rest, Reads room .value (skipBlanks s) v rest ∧ skipBlanks rest = [] := by
  constructor
  · intro success
    unfold parseWithin at success
    split at success
    · cases success
    · rename_i value rest read
      split at success
      · rename_i ended
        cases success
        have staged : Stage.value.read (fuelFor s) room (skipBlanks s) = .ok (v, rest) := read
        exact ⟨rest, reads_of_read staged, List.isEmpty_iff.mp ended⟩
      · cases success
  · rintro ⟨rest, reads, ended⟩
    rw [parseWithin_of_reads reads, ended]
    rfl

end FlowCorpus.Json
