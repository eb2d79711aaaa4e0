import Mathlib
import FlowCorpus.Proofs.Batch.Records
import FlowCorpus.Proofs.Json.Grammar
import FlowCorpus.Proofs.Text.Pieces

/-!
# Records in lines and in a list

A file holds records one per line or as the items of one list. Both are read as the same functions,
as long as no line ends inside a record, no record is nested so deeply that a list around it is too
much, and the lines do not begin with a bracket: a record in a list of its own that stands first
makes the whole text a list, and lines behind it no JSON.
-/

set_option autoImplicit false

namespace FlowCorpus.Text

/-! ## Lines -/

theorem linesFrom_plain {c : Char} (plain : isLineEnd c = false) (line rest : List Char) :
    linesFrom line (c :: rest) = linesFrom (c :: line) rest := by
  have noReturn : c ≠ '\r' := by
    rintro rfl
    cases plain
  simp [linesFrom, noReturn, plain]

theorem linesFrom_append {piece : List Char} (plain : ∀ c ∈ piece, isLineEnd c = false)
    (line rest : List Char) :
    linesFrom line (piece ++ rest) = linesFrom (piece.reverse ++ line) rest := by
  induction piece generalizing line with
  | nil => rfl
  | cons c piece ih =>
      rw [List.cons_append, linesFrom_plain (plain c List.mem_cons_self),
        ih fun d member => plain d (List.mem_cons_of_mem c member)]
      simp

theorem linesFrom_feed (line rest : List Char) :
    linesFrom line ('\n' :: rest) = line.reverse :: linesFrom [] rest := rfl

/-- Pieces in which no line ends are the lines of the text that they make. -/
theorem lines_join {piece : List Char} {pieces : List (List Char)}
    (plain : ∀ p ∈ piece :: pieces, ∀ c ∈ p, isLineEnd c = false)
    (some : ∀ p ∈ piece :: pieces, p ≠ []) {lastly : List Char}
    (ending : lastly = [] ∨ lastly = ['\n']) :
    lines (Text.join ['\n'] (piece :: pieces) ++ lastly) = piece :: pieces := by
  unfold lines
  induction pieces generalizing piece with
  | nil =>
      have first := some piece List.mem_cons_self
      rw [join_singleton, linesFrom_append (plain piece List.mem_cons_self), List.append_nil]
      rcases ending with rfl | rfl
      · simp [linesFrom, first]
      · rw [linesFrom_feed, List.reverse_reverse]
        rfl
  | cons next pieces ih =>
      rw [join_cons_cons, List.append_assoc, List.append_assoc,
        linesFrom_append (plain piece List.mem_cons_self), List.append_nil,
        List.singleton_append, linesFrom_feed, List.reverse_reverse,
        ih (fun p member => plain p (List.mem_cons_of_mem piece member))
          (fun p member => some p (List.mem_cons_of_mem piece member))]

theorem trimStartOf_isBlank {s rest : List Char} {c : Char} (ink : isBlank c = false)
    (shape : Json.skipBlanks s = c :: rest) : trimStartOf isBlank s = c :: rest := by
  induction s with
  | nil => cases shape
  | cons d s ih =>
      simp only [Json.skipBlanks, List.dropWhile_cons] at shape
      split at shape
      · rename_i blank
        have wider : isBlank d = true := by
          simp only [Json.isJsonBlank, Bool.or_eq_true, decide_eq_true_eq] at blank
          rcases blank with ((rfl | rfl) | rfl) | rfl <;> rfl
        rw [← ih shape]
        simp [trimStartOf, wider]
      · cases shape
        simp [trimStartOf, ink]

end FlowCorpus.Text

namespace FlowCorpus.Batch

open FlowCorpus.Assembly FlowCorpus.Json FlowCorpus.Program FlowCorpus.Storage FlowCorpus.Text

def IsRecord : Value → Prop
  | .obj _ => True
  | .arr [.obj _] => True
  | _ => False

/-- A text of a value that is one line, and that leaves room for one more list around it. -/
structure Encodes (text : List Char) (record : Value) : Prop where
  read : parseWithin (openLimit - 1) text = .ok record
  line : ∀ c ∈ text, isLineEnd c = false

abbrev Encoded := Value × List Char

theorem decode_of_parse {s : List Char} {v : Value} (read : parseWithin openLimit s = .ok v) :
    decode (String.ofList s) = .ok v := by
  unfold decode Json.parse
  rw [String.toList_ofList, parseChars_eq, read]

/-! ## One record -/

namespace Encodes

variable {text : List Char} {record : Value}

theorem reads (encodes : Encodes text record) :
    ∃ rest, Reads (openLimit - 1) .value (skipBlanks text) record rest ∧ skipBlanks rest = [] :=
  parseWithin_ok_iff.mp encodes.read

theorem ne_nil (encodes : Encodes text record) : text ≠ [] := by
  obtain ⟨rest, reads, -⟩ := encodes.reads
  rintro rfl
  exact reads.ne_nil rfl

theorem decoded (encodes : Encodes text record) : decode (String.ofList text) = .ok record := by
  obtain ⟨rest, reads, ended⟩ := encodes.reads
  refine decode_of_parse (parseWithin_ok_iff.mpr ⟨rest, ?_, ended⟩)
  have wider := reads.append (Nat.sub_le openLimit 1) stops_nil
  rwa [List.append_nil, List.append_nil] at wider

/-- The mark that a record begins with. -/
theorem mark (encodes : Encodes text record) (shape : IsRecord record) :
    ∃ c rest, skipBlanks text = c :: rest ∧
      (c = '{' ∧ (∃ fields, record = .obj fields) ∨
        c = '[' ∧ ∃ fields, record = .arr [.obj fields]) := by
  obtain ⟨behind, reads, -⟩ := encodes.reads
  obtain ⟨list, object⟩ := reads.marks
  unfold IsRecord at shape
  split at shape
  · rename_i fields
    obtain ⟨rest, begins⟩ := List.head?_eq_some_iff.mp (object fields rfl)
    exact ⟨'{', rest, begins, .inl ⟨rfl, fields, rfl⟩⟩
  · rename_i fields
    obtain ⟨rest, begins⟩ := List.head?_eq_some_iff.mp (list [.obj fields] rfl)
    exact ⟨'[', rest, begins, .inr ⟨rfl, fields, rfl⟩⟩
  · exact shape.elim

/-- Without the blanks in front, the text of a record begins with its mark, whatever follows. -/
theorem trimStart (encodes : Encodes text record) (shape : IsRecord record) (more : List Char) :
    trimStartOf isBlank (text ++ more) = skipBlanks text ++ more ∧
      (IsList (text ++ more) ↔ ∃ fields, record = .arr [.obj fields]) := by
  obtain ⟨c, rest, begins, mark⟩ := encodes.mark shape
  have ink : isBlank c = false := by
    rcases mark with ⟨rfl, -⟩ | ⟨rfl, -⟩ <;> rfl
  have trimmed := trimStartOf_isBlank ink (skipBlanks_eq_cons begins more)
  unfold IsList
  rw [trimmed, begins]
  refine ⟨rfl, ?_⟩
  rcases mark with ⟨rfl, fields, rfl⟩ | ⟨rfl, fields, rfl⟩ <;> simp

theorem not_blank (encodes : Encodes text record) (shape : IsRecord record) :
    text.all isBlank = false := by
  obtain ⟨c, rest, begins, mark⟩ := encodes.mark shape
  have inside : c ∈ text := (cons_suffix begins).subset List.mem_cons_self
  have ink : isBlank c = false := by
    rcases mark with ⟨rfl, -⟩ | ⟨rfl, -⟩ <;> rfl
  rw [List.all_eq_false]
  exact ⟨c, inside, by simp [ink]⟩

/-- Behind a whole record only blanks may stand. -/
theorem decode_append (encodes : Encodes text record) {more : List Char} (stops : Stops more) :
    decode (String.ofList (skipBlanks text ++ more)) =
      if skipBlanks more = [] then .ok record else .error .malformedJson := by
  obtain ⟨rest, reads, ended⟩ := encodes.reads
  have longer := reads.append (Nat.sub_le openLimit 1) stops
  have some : skipBlanks (skipBlanks text) ≠ [] := by
    rw [skipBlanks_skipBlanks]
    exact reads.ne_nil
  have blanks : skipBlanks (skipBlanks text ++ more) = skipBlanks text ++ more := by
    rw [skipBlanks_append more some, skipBlanks_skipBlanks]
  have parsed := parseWithin_of_reads (blanks.symm ▸ longer)
  rw [skipBlanks_append_of_nil more ended] at parsed
  unfold decode Json.parse
  rw [String.toList_ofList, parseChars_eq, parsed]
  cases skipBlanks more <;> rfl

end Encodes

/-! ## A list of records -/

def listText (records : List Encoded) : List Char :=
  '[' :: (Text.join [','] (records.map Prod.snd) ++ [']'])

theorem reads_items {first : Encoded} {others : List Encoded}
    (encoded : ∀ r ∈ first :: others, Encodes r.2 r.1) (found : List Value) :
    Reads (openLimit - 1) (.items found)
      (skipBlanks (Text.join [','] ((first :: others).map Prod.snd) ++ [']']))
      (.arr (found.reverse ++ (first :: others).map Prod.fst)) [] := by
  induction others generalizing first found with
  | nil =>
      obtain ⟨rest, reads, ended⟩ := (encoded first List.mem_cons_self).reads
      have stops : Stops [']'] := stops_cons (by decide) []
      rw [List.map_singleton, join_singleton, skipBlanks_append _ reads.ne_nil, List.map_singleton,
        ← List.reverse_cons]
      exact .lastItem (reads.append (Nat.le_refl _) stops) (skipBlanks_append_of_nil _ ended)
  | cons next others ih =>
      obtain ⟨rest, reads, ended⟩ := (encoded first List.mem_cons_self).reads
      have remaining := ih (fun r member => encoded r (List.mem_cons_of_mem first member))
        (first.1 :: found)
      have stops : ∀ more, Stops (',' :: more) := stops_cons (by decide)
      rw [List.reverse_cons, List.append_assoc, List.singleton_append] at remaining
      rw [List.map_cons, List.map_cons, join_cons_cons, List.append_assoc, List.append_assoc,
        skipBlanks_append _ reads.ne_nil]
      exact .item (reads.append (Nat.le_refl _) (stops _)) (skipBlanks_append_of_nil _ ended)
        remaining

theorem recordsOf_listText {first : Encoded} {others : List Encoded}
    (encoded : ∀ r ∈ first :: others, Encodes r.2 r.1)
    (shapes : ∀ r ∈ first :: others, IsRecord r.1) :
    recordsOf (listText (first :: others)) = .ok (((first :: others).map Prod.fst).map .ok) := by
  have opened : (skipBlanks (Text.join [','] ((first :: others).map Prod.snd) ++ [']'])).head? ≠
      some ']' := by
    obtain ⟨more, text⟩ := join_cons [','] first.2 (others.map Prod.snd)
    obtain ⟨c, rest, begins, mark⟩ :=
      (encoded first List.mem_cons_self).mark (shapes first List.mem_cons_self)
    rw [List.map_cons, text, List.append_assoc, skipBlanks_eq_cons begins]
    rcases mark with ⟨rfl, -⟩ | ⟨rfl, -⟩ <;> simp
  have list : Reads openLimit .value (skipBlanks (listText (first :: others)))
      (.arr ((first :: others).map Prod.fst)) [] := .list opened (reads_items encoded [])
  have decoded := decode_of_parse (parseWithin_ok_iff.mpr ⟨[], list, rfl⟩)
  have trimmed : trimStartOf isBlank (listText (first :: others)) = listText (first :: others) :=
    rfl
  have bracket : IsList (listText (first :: others)) := rfl
  unfold recordsOf
  rw [if_pos bracket, trimmed, decoded]

/-! ## Records in lines -/

/-- The text of records in lines, the last of which may be ended or not. -/
def linesText (records : List Encoded) (lastly : List Char) : List Char :=
  Text.join ['\n'] (records.map Prod.snd) ++ lastly

theorem recordsOf_linesText {first : Encoded} {others : List Encoded}
    (encoded : ∀ r ∈ first :: others, Encodes r.2 r.1)
    (shapes : ∀ r ∈ first :: others, IsRecord r.1) {lastly : List Char}
    (ending : lastly = [] ∨ lastly = ['\n']) {fields : Fields} (bare : first.1 = .obj fields) :
    recordsOf (linesText (first :: others) lastly) =
      .ok (((first :: others).map Prod.fst).map .ok) := by
  obtain ⟨more, text⟩ := join_cons ['\n'] first.2 (others.map Prod.snd)
  have apart : ¬ IsList (linesText (first :: others) lastly) := by
    have list := ((encoded first List.mem_cons_self).trimStart (shapes first List.mem_cons_self)
      (more ++ lastly)).2
    rw [linesText, List.map_cons, text, List.append_assoc, list, bare]
    rintro ⟨inside, wrapped⟩
    cases wrapped
  have line : ∀ text ∈ (first :: others).map Prod.snd, ∀ c ∈ text, isLineEnd c = false :=
    List.forall_mem_map.mpr fun r member => (encoded r member).line
  have some : ∀ text ∈ (first :: others).map Prod.snd, text ≠ [] :=
    List.forall_mem_map.mpr fun r member => (encoded r member).ne_nil
  have cut : lines (linesText (first :: others) lastly) = (first :: others).map Prod.snd :=
    lines_join line some ending
  have inked : ((first :: others).map Prod.snd).filter (fun line => !line.all isBlank) =
      (first :: others).map Prod.snd := by
    refine List.filter_eq_self.mpr fun line member => ?_
    obtain ⟨r, inside, rfl⟩ := List.mem_map.mp member
    rw [(encoded r inside).not_blank (shapes r inside)]
    rfl
  unfold recordsOf
  rw [if_neg apart, cut, inked, List.map_map, List.map_map]
  exact congrArg Except.ok (List.map_congr_left fun r member => (encoded r member).decoded)

/-- Lines that begin with a record in a list are taken for that list. -/
theorem recordsOf_linesText_wrapped {first : Encoded} {others : List Encoded}
    (encoded : ∀ r ∈ first :: others, Encodes r.2 r.1)
    (shapes : ∀ r ∈ first :: others, IsRecord r.1) {lastly : List Char}
    (ending : lastly = [] ∨ lastly = ['\n']) {fields : Fields}
    (wrapped : first.1 = .arr [.obj fields]) :
    recordsOf (linesText (first :: others) lastly) =
      if others = [] then .ok [.ok (.obj fields)] else .error .malformedJson := by
  have encodes := encoded first List.mem_cons_self
  have trimmed := encodes.trimStart (shapes first List.mem_cons_self)
  unfold recordsOf
  cases others with
  | nil =>
      have text : linesText [first] lastly = first.2 ++ lastly := by
        rw [linesText, List.map_singleton, join_singleton]
      have stops : Stops lastly := by
        rcases ending with rfl | rfl
        · exact stops_nil
        · exact stops_cons (by decide) []
      have blank : skipBlanks lastly = [] := by
        rcases ending with rfl | rfl <;> rfl
      rw [text, if_pos ((trimmed lastly).2.mpr ⟨fields, wrapped⟩), (trimmed lastly).1,
        encodes.decode_append stops, if_pos blank, wrapped]
      rfl
  | cons next others =>
      have later : next ∈ first :: next :: others := List.mem_cons_of_mem first List.mem_cons_self
      obtain ⟨c, rest, begins, -⟩ := (encoded next later).mark (shapes next later)
      obtain ⟨more, joined⟩ := join_cons ['\n'] next.2 (others.map Prod.snd)
      let behind := '\n' :: (next.2 ++ (more ++ lastly))
      have text : linesText (first :: next :: others) lastly = first.2 ++ behind := by
        rw [linesText, List.map_cons, List.map_cons, join_cons_cons, joined]
        simp [behind]
      have stops : Stops behind := stops_cons (by decide) _
      have some : skipBlanks behind ≠ [] := by
        have next : skipBlanks behind = c :: (rest ++ (more ++ lastly)) :=
          skipBlanks_eq_cons begins _
        rw [next]
        exact List.cons_ne_nil _ _
      rw [text, if_pos ((trimmed behind).2.mpr ⟨fields, wrapped⟩), (trimmed behind).1,
        encodes.decode_append stops, if_neg some, if_neg (List.cons_ne_nil _ _)]

/-! ## Both layouts -/

/-- What outcomes in a row end in: the first fault that is not passed over, or the account of all of
them. -/
def settled {α : Type} (outcomes : List (Except Fault α)) : Except Fault (Loaded α) :=
  match outcomes.findSome? escaping? with
  | some fault => .error fault
  | none => .ok (accounted outcomes)

def fileOf (path : Path) (loaded : Loaded Function) : FunctionFile where
  path
  functions := loaded.parsed
  architecture := detectArchitecture? loaded.parsed
  malformed := loaded.malformed

theorem endingOf_of_recordsOf {α : Type} {parse : Value → Except Fault α} {s : List Char}
    {values : List Value} (records : recordsOf s = .ok (values.map .ok)) :
    endingOf parse s = (settled (values.map parse)).map some := by
  have outcomes : (values.map Except.ok).map (fun record => record >>= parse) = values.map parse :=
    List.map_map
  unfold endingOf settled
  rw [records]
  simp only [outcomes]
  cases (values.map parse).findSome? escaping? <;> rfl

theorem on_loadFunctions {path : Path} {w : Workspace} {s : List Char}
    (readable : w.tree.readText path = .ok (String.ofList s)) :
    ((loadFunctions path).on w).1 =
      (endingOf Function.ofJson s).map (Option.map (fileOf path)) := by
  have loaded := on_loadRecords refuses_function readable
  rw [String.toList_ofList] at loaded
  rw [← loaded]
  unfold loadFunctions
  rw [Job.on_bind]
  rcases (loadRecords Function.ofJson path).on w with ⟨outcome, later⟩
  rcases outcome with fault | _ | loaded <;> rfl

theorem ofJson_wrapped (fields : Fields) :
    Function.ofJson (.arr [.obj fields]) = Function.ofJson (.obj fields) := rfl

/-- Records in lines and the same records in a list are read as the same file of functions, unless
the first of several lines is a record in a list of its own: such lines are not read at all. -/
theorem loadFunctions_layouts {first : Encoded} {others : List Encoded}
    (encoded : ∀ r ∈ first :: others, Encodes r.2 r.1)
    (shapes : ∀ r ∈ first :: others, IsRecord r.1) {lastly : List Char}
    (ending : lastly = [] ∨ lastly = ['\n']) {path : Path} {w w' : Workspace}
    (inLines : w.tree.readText path = .ok (String.ofList (linesText (first :: others) lastly)))
    (inList : w'.tree.readText path = .ok (String.ofList (listText (first :: others)))) :
    let byLines := ((loadFunctions path).on w).1
    let byList := ((loadFunctions path).on w').1
    byList = (settled ((first :: others).map fun r => Function.ofJson r.1)).map
        (fun loaded => some (fileOf path loaded)) ∧
      (byLines = byList ↔ others = [] ∨ ∃ fields, first.1 = .obj fields) ∧
      (byLines ≠ byList → byLines = .ok none) := by
  intro byLines byList
  have list : byList = (settled (((first :: others).map Prod.fst).map Function.ofJson)).map
      (fun loaded => some (fileOf path loaded)) := by
    refine (on_loadFunctions inList).trans ?_
    rw [endingOf_of_recordsOf (recordsOf_listText encoded shapes)]
    cases settled (((first :: others).map Prod.fst).map Function.ofJson) <;> rfl
  have several : byList ≠ .ok none := by
    rw [list]
    cases settled (((first :: others).map Prod.fst).map Function.ofJson) <;> nofun
  have same {values : List Value}
      (records : recordsOf (linesText (first :: others) lastly) = .ok (values.map .ok))
      (equal : values.map Function.ofJson = ((first :: others).map Prod.fst).map Function.ofJson) :
      byLines = byList := by
    rw [list, ← equal]
    refine (on_loadFunctions inLines).trans ?_
    rw [endingOf_of_recordsOf records]
    cases settled (values.map Function.ofJson) <;> rfl
  refine ⟨by rwa [List.map_map] at list, ?_⟩
  rcases (encoded first List.mem_cons_self).mark (shapes first List.mem_cons_self) with
    ⟨_, _, -, ⟨-, fields, bare⟩ | ⟨-, fields, wrapped⟩⟩
  · have equal := same (recordsOf_linesText encoded shapes ending bare) rfl
    exact ⟨⟨fun _ => .inr ⟨fields, bare⟩, fun _ => equal⟩, fun different => absurd equal different⟩
  · have records := recordsOf_linesText_wrapped encoded shapes ending wrapped
    cases others with
    | nil =>
        have single : recordsOf (linesText [first] lastly) = .ok ([Value.obj fields].map .ok) :=
          records.trans (if_pos rfl)
        have equal : byLines = byList :=
          same single (by simp only [List.map_cons, List.map_nil, wrapped, ofJson_wrapped])
        exact ⟨⟨fun _ => .inl rfl, fun _ => equal⟩, fun different => absurd equal different⟩
    | cons next others =>
        have nothing : byLines = .ok none := by
          refine (on_loadFunctions inLines).trans ?_
          unfold endingOf
          rw [records, if_neg (List.cons_ne_nil _ _)]
          rfl
        refine ⟨⟨fun equal => absurd (equal.symm.trans nothing) several, ?_⟩, fun _ => nothing⟩
        rintro (none | ⟨other, bare⟩)
        · cases none
        · cases wrapped.symm.trans bare

def bareRecord : Encoded :=
  (sizedRecord, sizedLine.toList)

def wrappedRecord : Encoded :=
  (.arr [.obj [("name", .str "b"), ("offset", .int 2), ("blocks", .arr [])]],
    "[\x7b\"name\":\"b\",\"offset\":2,\"blocks\":[]\x7d]".toList)

theorem line_of_all {text : List Char} (checked : text.all (fun c => !isLineEnd c) = true) :
    ∀ c ∈ text, isLineEnd c = false := by
  simpa using checked

theorem encodes_bare : Encodes bareRecord.2 bareRecord.1 where
  read := by
    change parseWithin 984 bareRecord.2 = .ok bareRecord.1
    cbv
  line := line_of_all (by decide +kernel)

theorem encodes_wrapped : Encodes wrappedRecord.2 wrappedRecord.1 where
  read := by
    change parseWithin 984 wrappedRecord.2 = .ok wrappedRecord.1
    cbv
  line := line_of_all (by decide +kernel)

def linesWorkspace (records : List Encoded) : Workspace :=
  withRecords (String.ofList (linesText records []))

def listWorkspace (records : List Encoded) : Workspace :=
  withRecords (String.ofList (listText records))

def recordsFile : Path := ⟨"", ["x.jsonl"]⟩

theorem readText_linesWorkspace {records : List Encoded} (plain : '\r' ∉ linesText records []) :
    (linesWorkspace records).tree.readText recordsFile =
      .ok (String.ofList (linesText records [])) :=
  readText_withRecords (by rwa [String.toList_ofList])

theorem readText_listWorkspace {records : List Encoded} (plain : '\r' ∉ listText records) :
    (listWorkspace records).tree.readText recordsFile = .ok (String.ofList (listText records)) :=
  readText_withRecords (by rwa [String.toList_ofList])

def functionA : Function := { name := "a", offset := 1, size := some 2 }

def functionB : Function := { name := "b", offset := 2 }

theorem loadFunctions_bareFirst :
    ((loadFunctions recordsFile).on (linesWorkspace [bareRecord, wrappedRecord])).1 =
        .ok (some ⟨recordsFile, [functionA, functionB], none, 0⟩) ∧
      ((loadFunctions recordsFile).on (linesWorkspace [bareRecord, wrappedRecord])).1 =
        ((loadFunctions recordsFile).on (listWorkspace [bareRecord, wrappedRecord])).1 := by
  have encoded : ∀ r ∈ [bareRecord, wrappedRecord], Encodes r.2 r.1 := by
    simp [encodes_bare, encodes_wrapped]
  have shapes : ∀ r ∈ [bareRecord, wrappedRecord], IsRecord r.1 := by
    simp [bareRecord, wrappedRecord, sizedRecord, IsRecord]
  obtain ⟨list, same, -⟩ := loadFunctions_layouts encoded shapes (.inl rfl)
    (readText_linesWorkspace (by decide +kernel)) (readText_listWorkspace (by decide +kernel))
  have equal := same.mpr (.inr ⟨_, rfl⟩)
  exact ⟨equal.trans list, equal⟩

/-- A function whose name holds a line separator, which ends a line but may stand in a text. -/
def separatedRecord : Encoded :=
  (.obj [("name", .str "a\u2028b"), ("offset", .int 1), ("blocks", .arr [])],
    "\x7b\"name\":\"a\u2028b\",\"offset\":1,\"blocks\":[]\x7d".toList)

def beforeSeparator : List Char :=
  "\x7b\"name\":\"a".toList

def behindSeparator : List Char :=
  "b\",\"offset\":1,\"blocks\":[]\x7d".toList

theorem recordsOf_separated :
    recordsOf (linesText [separatedRecord] []) =
        .ok [.error .malformedJson, .error .malformedJson] ∧
      recordsOf (listText [separatedRecord]) = .ok [.ok separatedRecord.1] := by
  have apart : ¬ IsList (linesText [separatedRecord] []) := by decide +kernel
  have bracket : IsList (listText [separatedRecord]) := rfl
  have cut : (lines (linesText [separatedRecord] [])).filter (fun line => !line.all isBlank) =
      [beforeSeparator, behindSeparator] := by decide +kernel
  have before : decode (String.ofList beforeSeparator) = .error .malformedJson := by cbv
  have behind : decode (String.ofList behindSeparator) = .error .malformedJson := by cbv
  have list : decode (String.ofList (trimStartOf isBlank (listText [separatedRecord]))) =
      .ok (.arr [separatedRecord.1]) := by cbv
  constructor
  · unfold recordsOf
    rw [if_neg apart, cut]
    simp only [List.map_cons, List.map_nil, before, behind]
  · unfold recordsOf
    rw [if_pos bracket, list]
    rfl

/-- The same records the other way round are lost as lines, and read as a list. So is a record that
holds a line separator. -/
theorem loadFunctions_wrappedFirst :
    (∀ r ∈ [wrappedRecord, bareRecord, separatedRecord],
      decode (String.ofList r.2) = .ok r.1 ∧ IsRecord r.1 ∧ '\n' ∉ r.2 ∧ '\r' ∉ r.2) ∧
    ((loadFunctions recordsFile).on (linesWorkspace [wrappedRecord, bareRecord])).1 = .ok none ∧
    ((loadFunctions recordsFile).on (listWorkspace [wrappedRecord, bareRecord])).1 =
      .ok (some ⟨recordsFile, [functionB, functionA], none, 0⟩) ∧
    ((loadFunctions recordsFile).on (linesWorkspace [separatedRecord])).1 =
      .ok (some ⟨recordsFile, [], none, 2⟩) ∧
    ((loadFunctions recordsFile).on (listWorkspace [separatedRecord])).1 =
      .ok (some ⟨recordsFile, [{ name := "a\u2028b", offset := 1 }], none, 0⟩) := by
  have encoded : ∀ r ∈ [wrappedRecord, bareRecord], Encodes r.2 r.1 := by
    simp [encodes_bare, encodes_wrapped]
  have shapes : ∀ r ∈ [wrappedRecord, bareRecord], IsRecord r.1 := by
    simp [bareRecord, wrappedRecord, sizedRecord, IsRecord]
  have decoded : decode (String.ofList separatedRecord.2) = .ok separatedRecord.1 := by cbv
  have plain : '\n' ∉ separatedRecord.2 ∧ '\r' ∉ separatedRecord.2 := by decide +kernel
  refine ⟨?_, ?_, ?_, ?_, ?_⟩
  · intro r member
    have parts : r ∈ [wrappedRecord, bareRecord] ++ [separatedRecord] := member
    rcases List.mem_append.mp parts with inside | last
    · have line := (encoded r inside).line
      exact ⟨(encoded r inside).decoded, shapes r inside,
        fun feed => absurd (line _ feed) (by decide), fun back => absurd (line _ back) (by decide)⟩
    · cases List.mem_singleton.mp last
      exact ⟨decoded, trivial, plain⟩
  · rw [on_loadFunctions (readText_linesWorkspace (by decide +kernel))]
    unfold endingOf
    rw [recordsOf_linesText_wrapped encoded shapes (.inl rfl) rfl]
    rfl
  · rw [on_loadFunctions (readText_listWorkspace (by decide +kernel)),
      endingOf_of_recordsOf (recordsOf_listText encoded shapes)]
    rfl
  · rw [on_loadFunctions (readText_linesWorkspace (by decide +kernel))]
    unfold endingOf
    rw [recordsOf_separated.1]
    rfl
  · rw [on_loadFunctions (readText_listWorkspace (by decide +kernel))]
    unfold endingOf
    rw [recordsOf_separated.2]
    rfl

end FlowCorpus.Batch
