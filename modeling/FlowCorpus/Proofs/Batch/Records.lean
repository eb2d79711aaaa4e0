import Mathlib
import FlowCorpus.Batch.Records
import FlowCorpus.Proofs.Program.Refusal
import FlowCorpus.Proofs.Storage.Written

/-!
# Files of records as a whole

What a file of records is read as. The records that parse are kept in order and the other ones are
counted, as long as every fault is one that is passed over: an infinite count, an integer with too
many digits and too many open brackets are not, and one such record loses the whole file.
-/

set_option autoImplicit false

namespace FlowCorpus.Json

/-! ## Texts that begin with a bracket -/

theorem readItems_arr {fuel room : Nat} {items : List Value} {s rest : List Char} {value : Value}
    (success : readItems fuel room items s = .ok (value, rest)) : ∃ all, value = .arr all := by
  induction fuel generalizing items s with
  | zero => cases success
  | succ fuel ih =>
      unfold readItems at success
      split at success
      · cases success
      · split at success
        · exact ih success
        · cases success
          exact ⟨_, rfl⟩
        · cases success

theorem readValue_arr {fuel room : Nat} {s rest : List Char} {value : Value}
    (success : readValue (fuel + 1) room ('[' :: s) = .ok (value, rest)) :
    ∃ all, value = .arr all := by
  simp only [readValue] at success
  split at success
  · cases success
  · split at success
    · cases success
      exact ⟨[], rfl⟩
    · exact readItems_arr success

/-- A text that begins with a bracket is that of a list, if it is JSON at all. -/
theorem parse_arr {s : String} {value : Value} (bracket : s.toList.head? = some '[')
    (success : parse s = .ok value) : ∃ items, value = .arr items := by
  obtain ⟨rest, shape⟩ := List.head?_eq_some_iff.mp bracket
  unfold parse parseChars at success
  rw [shape] at success
  split at success
  · cases success
  · rename_i found after read
    split at success
    · cases success
      exact readValue_arr read
    · cases success

end FlowCorpus.Json

namespace FlowCorpus.Batch

open FlowCorpus.Feature FlowCorpus.Json FlowCorpus.Program FlowCorpus.Storage FlowCorpus.Text

/-! ## The records of a text -/

/-- The readers of records. -/
inductive RecordKind where
  | function
  | callRecord
  | functionInfo

namespace RecordKind

def Meaning : RecordKind → Type
  | .function => Function
  | .callRecord => CallRecord
  | .functionInfo => FunctionInfo

def parse : (kind : RecordKind) → Value → Except Fault kind.Meaning
  | .function => Function.ofJson
  | .callRecord => CallRecord.ofJson
  | .functionInfo => FunctionInfo.ofJson

theorem refuses (kind : RecordKind) (value : Value) : Refuses value (kind.parse value) := by
  cases kind with
  | function => exact refuses_function value
  | callRecord => exact refuses_callRecord value
  | functionInfo => exact fun _ failure => .inl (passed_functionInfo failure)

end RecordKind

/-- Whether a text is one list of records: behind blanks, it begins with a bracket. -/
def IsList (s : List Char) : Prop :=
  (trimStartOf isBlank s).head? = some '['

instance : DecidablePred IsList := fun s =>
  inferInstanceAs (Decidable ((trimStartOf isBlank s).head? = some '['))

/-- The records of a text, each decoded or with the fault of its line: the items of a list, which
is decoded as a whole, or the lines that are not blank. -/
def recordsOf (s : List Char) : Except Fault (List (Except Fault Value)) :=
  if IsList s then
    match decode (String.ofList (trimStartOf isBlank s)) with
    | .ok (.arr items) => .ok (items.map .ok)
    | .ok _ => .error .malformedJson
    | .error fault => .error fault
  else
    .ok (((lines s).filter fun line => !line.all isBlank).map fun line =>
      decode (String.ofList line))

variable {α : Type}

/-- The fault of an outcome, if it is not passed over. -/
def escaping? : Except Fault α → Option Fault
  | .error fault => if fault.escapes then some fault else none
  | .ok _ => none

/-- The records of a file that was read: what was parsed, in order, and the number of the other
ones. -/
def accounted (outcomes : List (Except Fault α)) : Loaded α where
  parsed := outcomes.filterMap Except.toOption
  malformed := outcomes.countP fun outcome => outcome.toOption.isNone

def Loaded.note (loaded : Loaded α) : Except Fault α → Except Fault (Loaded α)
  | .ok a => .ok (loaded.add a)
  | .error fault => if fault.escapes then .error fault else .ok loaded.skip

/-! ## One record -/

theorem decode_error {s : String} {fault : Fault} (failure : decode s = .error fault) :
    fault = .malformedJson ∨ fault.escapes = true := by
  unfold decode at failure
  split at failure <;> cases failure
  · exact .inl rfl
  · exact .inr rfl
  · exact .inr rfl

theorem isMalformedRecord_eq {value : Value} {fault : Fault} (refused : Refusal value fault) :
    fault.isMalformedRecord = !fault.escapes := by
  rcases refused with ⟨malformed, contained⟩ | ⟨rfl, _⟩
  · rw [malformed, contained]
    rfl
  · rfl

variable {parse : Value → Except Fault α}

theorem on_loadRecord (path : Path) (loaded : Loaded α) (number : Nat) {value : Value}
    (refused : Refuses value (parse value)) (w : Workspace) :
    ((loadRecord path parse loaded number value).on w).1 = loaded.note (parse value) := by
  unfold loadRecord
  cases outcome : parse value with
  | ok a => rfl
  | error fault =>
      simp only [Loaded.note, isMalformedRecord_eq (refused fault outcome)]
      cases fault.escapes <;> rfl

theorem on_loadLine (path : Path) (refused : ∀ value, Refuses value (parse value))
    (loaded : Loaded α) (number : Nat) (line : List Char) (w : Workspace) :
    ((loadLine path parse loaded number line).on w).1 =
      if !line.all isBlank then loaded.note (decode (String.ofList line) >>= parse)
      else .ok loaded := by
  unfold loadLine
  cases line.all isBlank with
  | true => rfl
  | false =>
      simp only [Bool.false_eq_true, Bool.not_false, ↓reduceIte]
      cases decoded : decode (String.ofList line) with
      | ok value => exact on_loadRecord path loaded number (refused value) w
      | error fault =>
          rcases decode_error decoded with rfl | escapes
          · rfl
          · -- Any fault of decoding but bad syntax is thrown again as it is.
            have noted : loaded.note (.error fault : Except Fault α) = .error fault :=
              if_pos escapes
            refine Eq.trans ?_ noted.symm
            cases fault with
            | malformedJson => cases escapes
            | _ => rfl

/-! ## All records -/

theorem accounted_ok (a : α) (rest : List (Except Fault α)) :
    accounted (.ok a :: rest) =
      { accounted rest with parsed := a :: (accounted rest).parsed } := rfl

theorem accounted_error (fault : Fault) (rest : List (Except Fault α)) :
    accounted (.error fault :: rest) = (accounted rest).skip :=
  congrArg (Loaded.mk (rest.filterMap Except.toOption)) (List.countP_cons_of_pos rfl)

/-- Noting outcomes one after the other stops at the first fault that is not passed over, and
accounts for all of them if there is none. -/
theorem foldlM_note (outcomes : List (Except Fault α)) (loaded : Loaded α) :
    outcomes.foldlM Loaded.note loaded =
      match outcomes.findSome? escaping? with
      | some fault => .error fault
      | none => .ok {
          parsed := loaded.parsed ++ (accounted outcomes).parsed
          malformed := loaded.malformed + (accounted outcomes).malformed } := by
  induction outcomes generalizing loaded with
  | nil =>
      have nothing : accounted ([] : List (Except Fault α)) = {} := rfl
      rw [nothing, List.append_nil]
      rfl
  | cons outcome rest ih =>
      cases outcome with
      | ok a =>
          have found : (Except.ok a :: rest).findSome? escaping? = rest.findSome? escaping? := rfl
          rw [List.foldlM_cons, accounted_ok, found]
          refine (ih (loaded.add a)).trans ?_
          simp only [Loaded.add, List.append_assoc, List.singleton_append]
      | error fault =>
          cases escapes : fault.escapes with
          | true =>
              have found : escaping? (.error fault : Except Fault α) = some fault := if_pos escapes
              have stopped : loaded.note (.error fault) = .error fault := if_pos escapes
              rw [List.foldlM_cons, stopped, List.findSome?_cons, found]
              rfl
          | false =>
              have passed : escaping? (.error fault : Except Fault α) = none := by
                simp only [escaping?, escapes, Bool.false_eq_true, ↓reduceIte]
              have noted : loaded.note (.error fault) = .ok loaded.skip := by
                simp only [Loaded.note, escapes, Bool.false_eq_true, ↓reduceIte]
              rw [List.foldlM_cons, noted, accounted_error, List.findSome?_cons, passed]
              refine (ih loaded.skip).trans ?_
              simp only [Loaded.skip, Nat.add_assoc, Nat.add_comm 1]

/-- What a text of records is read as, in terms of the outcomes of its records. -/
def endingOf (parse : Value → Except Fault α) (s : List Char) : Except Fault (Option (Loaded α)) :=
  match recordsOf s with
  | .error .malformedJson => .ok none
  | .error fault => .error fault
  | .ok records =>
    let outcomes := records.map fun record => record >>= parse
    match outcomes.findSome? escaping? with
    | some fault => .error fault
    | none => .ok (some (accounted outcomes))

theorem map_foldlM_note (outcomes : List (Except Fault α)) :
    (outcomes.foldlM Loaded.note {}).map some =
      match outcomes.findSome? escaping? with
      | some fault => .error fault
      | none => .ok (some (accounted outcomes)) := by
  rw [foldlM_note]
  cases outcomes.findSome? escaping? with
  | some fault => rfl
  | none => simp only [Except.map, List.nil_append, Nat.zero_add]

theorem on_foldlM_zipIdx {β : Type} {step : Loaded α → β × Nat → Job (Loaded α)}
    (next : Loaded α → β → Except Fault (Loaded α))
    (each : ∀ loaded entry w, ((step loaded entry).on w).1 = next loaded entry.1) (items : List β)
    (start : Nat) (w : Workspace) :
    (((items.zipIdx start).foldlM step {}).on w).1 = items.foldlM next {} := by
  rw [Job.on_foldlM each]
  have numberless : (items.zipIdx start).foldlM (fun loaded entry => next loaded entry.1) {} =
      ((items.zipIdx start).map Prod.fst).foldlM next {} := List.foldlM_map.symm
  rw [numberless, List.zipIdx_map_fst]

theorem on_loadList (path : Path) (refused : ∀ value, Refuses value (parse value)) {s : List Char}
    (list : IsList s) (w : Workspace) :
    ((loadList path parse (trimStartOf isBlank s)).on w).1 = endingOf parse s := by
  unfold loadList endingOf recordsOf
  rw [if_pos list]
  cases decoded : decode (String.ofList (trimStartOf isBlank s)) with
  | error fault =>
      cases fault <;> rfl
  | ok value =>
      have read : Json.parse (String.ofList (trimStartOf isBlank s)) = .ok value := by
        unfold decode at decoded
        split at decoded <;> cases decoded
        assumption
      obtain ⟨items, rfl⟩ := parse_arr (by rwa [String.toList_ofList]) read
      have run := on_foldlM_zipIdx (fun loaded value => loaded.note (parse value))
        (fun loaded entry => on_loadRecord path loaded entry.2 (refused entry.1)) items 0 w
      have outcomes : (items.map Except.ok).map (fun record => record >>= parse) =
          items.map parse := List.map_map
      simp only
      rw [Job.on_map, outcomes, ← map_foldlM_note, List.foldlM_map]
      exact congrArg (Except.map some) run

theorem on_loadText (path : Path) (refused : ∀ value, Refuses value (parse value)) (s : List Char)
    (w : Workspace) : ((loadText path parse s).on w).1 = endingOf parse s := by
  by_cases list : IsList s
  · have chosen : loadText path parse s = loadList path parse (trimStartOf isBlank s) :=
      if_pos list
    rw [chosen, on_loadList path refused list]
  · have chosen : loadText path parse s = some <$> ((lines s).zipIdx 1).foldlM
        (fun loaded entry => loadLine path parse loaded entry.2 entry.1) {} := if_neg list
    have run := on_foldlM_zipIdx
      (fun loaded line =>
        if !line.all isBlank then loaded.note (decode (String.ofList line) >>= parse)
        else .ok loaded)
      (fun loaded entry => on_loadLine path refused loaded entry.2 entry.1) (lines s) 1 w
    unfold endingOf recordsOf
    rw [chosen, if_neg list, Job.on_map]
    simp only
    rw [← map_foldlM_note, List.foldlM_map, List.foldlM_map, List.foldlM_filter]
    exact congrArg (Except.map some) run

/-! ## The whole file -/

theorem on_readReporting {path : Path} {w : Workspace} {s : String}
    (readable : w.tree.readText path = .ok s) : (readReporting path).on w = (.ok (some s), w) := by
  have asked : (Job.attempt (Job.ask fun tree => tree.readText path)).on w = (.ok (.ok s), w) := by
    rw [Job.on_attempt, Job.on_ask, readable]
  unfold readReporting
  rw [Job.on_bind_of_ok asked]
  rfl

theorem on_loadRecords {path : Path} {w : Workspace} {s : String}
    (refused : ∀ value, Refuses value (parse value)) (readable : w.tree.readText path = .ok s) :
    ((loadRecords parse path).on w).1 = endingOf parse s.toList := by
  unfold loadRecords
  rw [Job.on_bind_of_ok (on_readReporting readable)]
  exact on_loadText path refused s.toList w

/-- A record, or a list of records as a whole, has a fault that is not passed over. -/
def Escapes (kind : RecordKind) (s : List Char) : Prop :=
  (∃ fault, recordsOf s = .error fault ∧ fault.escapes = true) ∨
    ∃ records, recordsOf s = .ok records ∧
      ∃ record ∈ records, ∃ fault, record >>= kind.parse = .error fault ∧ fault.escapes = true

theorem recordsOf_error {s : List Char} {fault : Fault} (failure : recordsOf s = .error fault) :
    fault = .malformedJson ∨ fault.escapes = true := by
  unfold recordsOf at failure
  split at failure
  · split at failure
    · cases failure
    · cases failure
      exact .inl rfl
    · rename_i other decoded
      cases failure
      exact decode_error decoded
  · cases failure

theorem escaping?_eq_some {outcome : Except Fault α} {fault : Fault} :
    escaping? outcome = some fault ↔ outcome = .error fault ∧ fault.escapes = true := by
  cases outcome with
  | ok a => simp [escaping?]
  | error other =>
      cases escapes : other.escapes with
      | true =>
          simp only [escaping?, escapes, ↓reduceIte, Option.some.injEq, Except.error.injEq]
          exact ⟨fun same => ⟨same, same ▸ escapes⟩, And.left⟩
      | false =>
          simp only [escaping?, escapes, Bool.false_eq_true, ↓reduceIte, reduceCtorEq,
            Except.error.injEq, false_iff, not_and]
          rintro rfl
          simp [escapes]

theorem endingOf_error_iff {kind : RecordKind} {s : List Char} :
    (∃ fault, endingOf kind.parse s = .error fault) ↔ Escapes kind s := by
  unfold endingOf Escapes
  cases records : recordsOf s with
  | error fault =>
      have cause := recordsOf_error records
      cases fault with
      | malformedJson => simp [Fault.escapes]
      | _ => simpa using cause
  | ok records =>
      simp only [reduceCtorEq, false_and, exists_false, Except.ok.injEq, exists_eq_left', false_or]
      constructor
      · rintro ⟨fault, ended⟩
        split at ended
        · rename_i first found
          obtain ⟨outcome, member, escaped⟩ := List.exists_of_findSome?_eq_some found
          obtain ⟨record, inside, rfl⟩ := List.mem_map.mp member
          exact ⟨record, inside, first, escaping?_eq_some.mp escaped⟩
        · cases ended
      · rintro ⟨record, inside, fault, escapes⟩
        split
        · rename_i first found
          exact ⟨first, rfl⟩
        · rename_i none
          have passed := List.findSome?_eq_none_iff.mp none _ (List.mem_map_of_mem inside)
          rw [escaping?_eq_some.mpr escapes] at passed
          cases passed

theorem endingOf_ok {kind : RecordKind} {s : List Char} (passed : ¬ Escapes kind s)
    {records : List (Except Fault Value)} (found : recordsOf s = .ok records) :
    endingOf kind.parse s =
      .ok (some (accounted (records.map fun record => record >>= kind.parse))) := by
  unfold endingOf
  simp only [found]
  split
  · rename_i fault escaped
    refine absurd (endingOf_error_iff.mp ⟨fault, ?_⟩) passed
    unfold endingOf
    simp only [found, escaped]
  · rfl

theorem recordsOf_error_iff {s : List Char} :
    (∃ fault, recordsOf s = .error fault) ↔
      IsList s ∧ ∀ items, decode (String.ofList (trimStartOf isBlank s)) ≠ .ok (.arr items) := by
  unfold recordsOf
  by_cases list : IsList s
  · rw [if_pos list]
    cases decoded : decode (String.ofList (trimStartOf isBlank s)) with
    | error fault => simp [list]
    | ok value => cases value <;> simp [list]
  · simp [list]

theorem endingOf_none_iff {kind : RecordKind} {s : List Char} (passed : ¬ Escapes kind s) :
    endingOf kind.parse s = .ok none ↔ ∃ fault, recordsOf s = .error fault := by
  cases found : recordsOf s with
  | ok records =>
      rw [endingOf_ok passed found]
      simp
  | error fault =>
      have malformed : fault = .malformedJson := by
        rcases recordsOf_error found with malformed | escapes
        · exact malformed
        · exact absurd (.inl ⟨fault, found, escapes⟩) passed
      unfold endingOf
      simp [found, malformed]

/-- What a decoded record escapes with is an infinite count; facts about a function have none. -/
theorem infinite_of_escapes {kind : RecordKind} {record : Except Fault Value} {fault : Fault}
    (failure : record >>= kind.parse = .error fault) (escapes : fault.escapes = true) :
    record = .error fault ∨
      fault = .infiniteInteger ∧ kind ≠ .functionInfo ∧
        ∃ value, record = .ok value ∧ value.HasInfinite := by
  rcases Outcome.bind_error failure with undecoded | ⟨value, decoded, failed⟩
  · exact .inl undecoded
  · rcases kind.refuses value fault failed with ⟨_, contained⟩ | ⟨infinite, inside⟩
    · rw [contained] at escapes
      cases escapes
    · refine .inr ⟨infinite, ?_, value, decoded, inside⟩
      rintro rfl
      have contained := (passed_functionInfo failed).2
      rw [escapes] at contained
      cases contained

/-- A file of records that can be read ends in a fault just when one of its records has a fault
that is not passed over. Otherwise there is no result just when it is one list that is no JSON, and
the result is what the records that parse stand for, in order, with the number of the other ones. A
decoded record is not passed over only for an infinite number in it. -/
theorem loadRecords_ending (kind : RecordKind) {w : Workspace} {path : Path} {s : String}
    (readable : w.tree.readText path = .ok s) :
    let ending := ((loadRecords kind.parse path).on w).1
    ((∃ fault, ending = .error fault) ↔ Escapes kind s.toList) ∧
    (¬ Escapes kind s.toList →
      (ending = .ok none ↔
        IsList s.toList ∧
          ∀ items, decode (String.ofList (trimStartOf isBlank s.toList)) ≠ .ok (.arr items)) ∧
      ∀ records, recordsOf s.toList = .ok records →
        ending = .ok (some (accounted (records.map fun record => record >>= kind.parse)))) ∧
    ∀ records, recordsOf s.toList = .ok records → ∀ record ∈ records, ∀ fault,
      record >>= kind.parse = .error fault → fault.escapes = true →
        record = .error fault ∨
          fault = .infiniteInteger ∧ kind ≠ .functionInfo ∧
            ∃ value, record = .ok value ∧ value.HasInfinite := by
  intro ending
  have ended : ending = endingOf kind.parse s.toList := on_loadRecords kind.refuses readable
  rw [ended]
  refine ⟨endingOf_error_iff, fun passed => ⟨?_, fun records => endingOf_ok passed⟩, ?_⟩
  · exact (endingOf_none_iff passed).trans recordsOf_error_iff
  · exact fun _ _ _ _ _ failure escapes => infinite_of_escapes failure escapes

def withRecords (s : String) : Workspace where
  tree := { entries := [(["x.jsonl"], .file (.text s))] }

theorem readText_withRecords {s : String} (plain : '\r' ∉ s.toList) :
    (withRecords s).tree.readText ⟨"", ["x.jsonl"]⟩ = .ok s := by
  change Except.ok (String.ofList (normalizeLineEnds s.toList)) = _
  rw [normalizeLineEnds_eq_self plain, String.ofList_toList]

def sizedLine : String :=
  "\x7b\"name\":\"a\",\"offset\":1,\"size\":2,\"blocks\":[]\x7d"

def sizedRecord : Value :=
  .obj [("name", .str "a"), ("offset", .int 1), ("size", .int 2), ("blocks", .arr [])]

def infiniteLine : String :=
  "\x7b\"name\":\"b\",\"offset\":1,\"size\":Infinity,\"blocks\":[]\x7d"

def infiniteRecord : Value :=
  .obj [("name", .str "b"), ("offset", .int 1), ("size", .float (.infinite false)),
    ("blocks", .arr [])]

def infiniteSize : String :=
  sizedLine ++ "\n" ++ infiniteLine

theorem readText_infiniteSize :
    (withRecords infiniteSize).tree.readText ⟨"", ["x.jsonl"]⟩ = .ok infiniteSize :=
  readText_withRecords (by decide +kernel)

theorem recordsOf_infiniteSize :
    recordsOf infiniteSize.toList = .ok [.ok sizedRecord, .ok infiniteRecord] := by
  have apart : ¬ IsList infiniteSize.toList := by decide +kernel
  have written : (lines infiniteSize.toList).filter (fun line => !line.all isBlank) =
      [sizedLine.toList, infiniteLine.toList] := by decide +kernel
  have sized : decode sizedLine = .ok sizedRecord := by cbv
  have infinite : decode infiniteLine = .ok infiniteRecord := by cbv
  unfold recordsOf
  rw [if_neg apart, written]
  simp only [List.map_cons, List.map_nil, String.ofList_toList, sized, infinite]

/-- The function of infinitely many bytes loses the one that can be read. -/
theorem loadRecords_infiniteSize :
    (withRecords infiniteSize).tree.readText ⟨"", ["x.jsonl"]⟩ = .ok infiniteSize ∧
      recordsOf infiniteSize.toList = .ok [.ok sizedRecord, .ok infiniteRecord] ∧
      Function.ofJson sizedRecord = .ok { name := "a", offset := 1, size := some 2 } ∧
      ((loadRecords Function.ofJson ⟨"", ["x.jsonl"]⟩).on (withRecords infiniteSize)).1 =
        .error .infiniteInteger := by
  refine ⟨readText_infiniteSize, recordsOf_infiniteSize, rfl, ?_⟩
  rw [on_loadRecords refuses_function readText_infiniteSize]
  unfold endingOf
  rw [recordsOf_infiniteSize]
  rfl

theorem loadRecords_infiniteSize_kinds :
    (withRecords infiniteSize).tree.readText ⟨"", ["x.jsonl"]⟩ = .ok infiniteSize ∧
      (∃ fault, ((loadRecords CallRecord.ofJson ⟨"", ["x.jsonl"]⟩).on
        (withRecords infiniteSize)).1 = .error fault) ∧
      ((loadRecords FunctionInfo.ofJson ⟨"", ["x.jsonl"]⟩).on (withRecords infiniteSize)).1 =
        .ok (some { parsed := [{ name := "a" }, { name := "b" }] }) := by
  obtain ⟨stops, _, _⟩ := loadRecords_ending .callRecord readText_infiniteSize
  obtain ⟨_, ends, _⟩ := loadRecords_ending .functionInfo readText_infiniteSize
  refine ⟨readText_infiniteSize, stops.mpr (.inr ⟨_, recordsOf_infiniteSize, ?_⟩), ?_⟩
  · exact ⟨.ok infiniteRecord, by simp, .infiniteInteger, rfl, rfl⟩
  · refine (ends ?_).2 _ recordsOf_infiniteSize
    rintro (⟨fault, failure, _⟩ | ⟨records, found, record, member, fault, failure, _⟩)
    · rw [recordsOf_infiniteSize] at failure
      cases failure
    · rw [recordsOf_infiniteSize] at found
      cases found
      rcases List.mem_pair.mp member with rfl | rfl <;> cases failure

end FlowCorpus.Batch
