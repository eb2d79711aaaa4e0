import Mathlib
import FlowCorpus.Proofs.Dedup.Firsts
import FlowCorpus.Proofs.Digest.Utf8
import FlowCorpus.Proofs.Text.Loose

/-!
# Records told apart by their digests

Of records with the same content the first one is kept. A digest of name and text is made of both
with a null character between them, and such a character may stand in the name or in the text
itself: one record is then taken for another one whose name goes on where its text starts. Nothing
else is mixed up as long as the digest itself tells the digested bytes apart. A record has a digest
unless half a surrogate pair stands in what is digested.
-/

set_option autoImplicit false

namespace FlowCorpus.Dedup

open FlowCorpus.Digest FlowCorpus.Text

/-! ## Records without digests -/

def encodingFault? : LooseText → Option Fault
  | .whole _ => none
  | .halved t => some (.notEncodable t.place t.firstHalves)

namespace Record

/-- The fault of a record that has no digest: that of its name, where names count, or of its
text. -/
def fault? (justValue : Bool) (record : Record) : Option Fault :=
  (if justValue then none else encodingFault? record.name).or (encodingFault? record.data)

def digest (justValue : Bool) (record : Record) : String :=
  (recordDigest justValue record.name record.data).toOption.getD ""

def entry (digest : Record → String) (record : Record) : Kept :=
  ⟨record.name, digest record, record.data, record.triple⟩

end Record

def Digested (justValue : Bool) (digest : Record → String) (records : List Record) : Prop :=
  ∀ record ∈ records, recordDigest justValue record.name record.data = .ok (digest record)

theorem recordDigest_eq (justValue : Bool) (record : Record) :
    recordDigest justValue record.name record.data =
      match record.fault? justValue with
      | some fault => .error fault
      | none => .ok (record.digest justValue) := by
  obtain ⟨name, data, triple⟩ := record
  cases justValue <;> cases name <;> cases data <;> rfl

theorem digested_iff {justValue : Bool} {records : List Record} :
    Digested justValue (Record.digest justValue) records ↔
      ∀ record ∈ records, record.fault? justValue = none := by
  refine forall₂_congr fun record _ => ?_
  rw [recordDigest_eq]
  cases record.fault? justValue <;> simp

theorem kept_eq (justValue : Bool) (record : Record) :
    record.kept justValue =
      match record.fault? justValue with
      | some fault => .error fault
      | none => .ok (record.entry (Record.digest justValue)) := by
  unfold Record.kept
  rw [recordDigest_eq]
  cases record.fault? justValue <;> rfl

/-- Records are digested one after the other, up to the first one that has no digest. -/
theorem mapM_kept (justValue : Bool) (records : List Record) :
    records.mapM (Record.kept justValue) =
      match records.findSome? (Record.fault? justValue) with
      | some fault => .error fault
      | none => .ok (records.map (Record.entry (Record.digest justValue))) := by
  induction records with
  | nil => rfl
  | cons record rest ih =>
      rw [List.mapM_cons, ih, kept_eq, List.findSome?_cons]
      cases record.fault? justValue with
      | some fault => rfl
      | none => cases rest.findSome? (Record.fault? justValue) <;> rfl

/-- A given digest is that of the record, which has no fault. -/
theorem Digested.of_mem {justValue : Bool} {digest : Record → String} {records : List Record}
    (given : Digested justValue digest records) {record : Record} (member : record ∈ records) :
    record.fault? justValue = none ∧ record.digest justValue = digest record := by
  have digested := given record member
  rw [recordDigest_eq] at digested
  cases none : record.fault? justValue with
  | none =>
      rw [none] at digested
      exact ⟨rfl, Except.ok.inj digested⟩
  | some fault =>
      rw [none] at digested
      cases digested

theorem deduplicate_of_digested {justValue : Bool} {digest : Record → String}
    {records : List Record} (given : Digested justValue digest records) :
    deduplicate justValue records = .ok (firstKept (records.map (Record.entry digest))) := by
  have free : records.findSome? (Record.fault? justValue) = none := by
    rw [List.findSome?_eq_none_iff]
    intro record member
    exact (given.of_mem member).1
  have entries : records.map (Record.entry (Record.digest justValue)) =
      records.map (Record.entry digest) := by
    apply List.map_congr_left
    intro record member
    rw [Record.entry, Record.entry, (given.of_mem member).2]
  unfold deduplicate
  rw [mapM_kept, free, entries]
  rfl

/-! ## Content -/

namespace Record

/-- Whether two records have the same content: the same text and, where names count, the same
name. -/
def alike (justValue : Bool) (a b : Record) : Bool :=
  (justValue || a.name == b.name) && a.data == b.data

/-- The name of the second record goes on, behind the name of the first one and a null character,
with the start of the text of the first one. -/
def RunsInto (a b : Record) : Prop :=
  ∃ middle, b.name.points = a.name.points ++ .char '\x00' :: middle ∧
    a.data.points = middle ++ .char '\x00' :: b.data.points

def bytes (justValue : Bool) (record : Record) : Except Fault (List UInt8) :=
  digestBytes justValue record.name record.data

theorem alike_iff {justValue : Bool} {a b : Record} :
    a.alike justValue b = true ↔ (justValue = true ∨ a.name = b.name) ∧ a.data = b.data := by
  simp [alike]

theorem not_runsInto_of_not_mem {a b : Record} (plain : .char '\x00' ∉ b.name.points) :
    ¬ a.RunsInto b := by
  rintro ⟨middle, name, _⟩
  rw [name] at plain
  simp at plain

end Record

theorem append_cons_eq_iff {α : Type} {c : α} {xs ys zs ws : List α} :
    xs ++ c :: ys = zs ++ c :: ws ↔
      (xs = zs ∧ ys = ws) ∨
        (∃ middle, zs = xs ++ c :: middle ∧ ys = middle ++ c :: ws) ∨
        ∃ middle, xs = zs ++ c :: middle ∧ ws = middle ++ c :: ys := by
  rw [List.append_eq_append_iff]
  constructor
  · rintro (⟨part, front, back⟩ | ⟨part, front, back⟩)
    all_goals
      cases part with
      | nil => simp_all
      | cons first middle => simp_all
  · rintro (⟨rfl, rfl⟩ | ⟨middle, rfl, rfl⟩ | ⟨middle, rfl, rfl⟩)
    · exact .inl ⟨[], by simp⟩
    · exact .inl ⟨c :: middle, by simp⟩
    · exact .inr ⟨c :: middle, by simp⟩

/-- The bytes of a record that has a digest are those of its text, or of its name and its text with
a null character between them. -/
theorem bytes_cases {justValue : Bool} {record : Record}
    (encodable : record.fault? justValue = none) :
    ∃ data : String, record.data = data ∧
      ((justValue = true ∧ record.bytes justValue = .ok (utf8 data)) ∨
        justValue = false ∧ ∃ name : String, record.name = name ∧
          record.bytes justValue = .ok (utf8 (name ++ "\x00" ++ data))) := by
  obtain ⟨name, data, triple⟩ := record
  cases data with
  | halved t => cases justValue <;> cases name <;> cases encodable
  | whole data =>
      refine ⟨data, rfl, ?_⟩
      cases justValue with
      | true => exact .inl ⟨rfl, rfl⟩
      | false =>
          cases name with
          | halved t => cases encodable
          | whole name =>
              refine .inr ⟨rfl, name, rfl, ?_⟩
              rw [utf8_append, utf8_append, utf8_null, List.append_assoc]
              rfl

theorem bytes_eq_iff {justValue : Bool} {a b : Record} (first : a.fault? justValue = none)
    (second : b.fault? justValue = none) :
    a.bytes justValue = b.bytes justValue ↔
      a.alike justValue b = true ∨ justValue = false ∧ (a.RunsInto b ∨ b.RunsInto a) := by
  have whole {s t : String} : (s : LooseText) = t ↔ s = t := by simp
  rw [Record.alike_iff]
  obtain ⟨data, text, ⟨rfl, bytes⟩ | ⟨rfl, name, named, bytes⟩⟩ := bytes_cases first
  · obtain ⟨other, otherText, ⟨-, otherBytes⟩ | ⟨impossible, -⟩⟩ := bytes_cases second
    · rw [bytes, otherBytes, text, otherText, whole]
      simp only [true_or, true_and, Bool.true_eq_false, false_and, or_false, Except.ok.injEq]
      exact ⟨utf8_injective, congrArg utf8⟩
    · cases impossible
  · obtain ⟨other, otherText, ⟨impossible, -⟩ | ⟨-, otherName, otherNamed, otherBytes⟩⟩ :=
      bytes_cases second
    · cases impossible
    have texts : a.bytes false = b.bytes false ↔
        a.name.points ++ .char '\x00' :: a.data.points =
          b.name.points ++ .char '\x00' :: b.data.points := by
      have points (name data : String) : (name ++ "\x00" ++ data).toList.map Point.char =
          name.toList.map Point.char ++ .char '\x00' :: data.toList.map Point.char := by simp
      rw [bytes, otherBytes, named, text, otherNamed, otherText]
      simp only [LooseText.points_whole, Except.ok.injEq, ← points]
      rw [List.map_inj_right fun _ _ same => Point.char.inj same, String.toList_inj]
      exact ⟨utf8_injective, congrArg utf8⟩
    rw [texts, append_cons_eq_iff]
    simp only [Record.RunsInto, Bool.false_eq_true, false_or, true_and]
    have same {s t : LooseText} : s.points = t.points ↔ s = t :=
      ⟨LooseText.points_injective, congrArg LooseText.points⟩
    rw [same, same]

theorem firstKept_entries (digest : Record → String) (records : List Record) :
    firstKept (records.map (Record.entry digest)) =
      let kept := unrepeated (fun a b => digest a == digest b) records
      (kept.map (Record.entry digest), ⟨records.length, kept.length⟩) := by
  rw [firstKept, firsts_map, firsts_eq_unrepeated]
  simp only [List.length_map]
  rfl

/-- Where every record has a digest, two records have one digest just when their content is the same
or one of them runs into the other. Where no record runs into another one, a record is left out just
when an earlier one has the same content, and the others are kept in order. -/
theorem deduplicate_alike (justValue : Bool) (digest : Record → String) (records : List Record)
    (given : Digested justValue digest records)
    (injective : ∀ a ∈ records, ∀ b ∈ records,
      digest a = digest b → a.bytes justValue = b.bytes justValue) :
    (∀ a ∈ records, ∀ b ∈ records, digest a = digest b ↔
      a.alike justValue b = true ∨ justValue = false ∧ (a.RunsInto b ∨ b.RunsInto a)) ∧
    ((justValue = false → ∀ a ∈ records, ∀ b ∈ records, ¬ a.RunsInto b) →
      let kept := unrepeated (Record.alike justValue) records
      deduplicate justValue records =
        .ok (kept.map fun record => ⟨record.name, digest record, record.data, record.triple⟩,
          ⟨records.length, kept.length⟩)) := by
  have digests : ∀ a ∈ records, ∀ b ∈ records, digest a = digest b ↔
      a.alike justValue b = true ∨ justValue = false ∧ (a.RunsInto b ∨ b.RunsInto a) := by
    intro a first b second
    rw [← bytes_eq_iff (given.of_mem first).1 (given.of_mem second).1]
    refine ⟨injective a first b second, fun same => ?_⟩
    have equal : recordDigest justValue a.name a.data = recordDigest justValue b.name b.data :=
      congrArg (fun bytes => bytes >>= fun bytes => pure (sha256 bytes)) same
    rw [given a first, given b second] at equal
    exact Except.ok.inj equal
  refine ⟨digests, fun apart => ?_⟩
  have agree : ∀ a ∈ records, ∀ b ∈ records,
      (digest a == digest b) = a.alike justValue b := by
    intro a first b second
    rw [Bool.eq_iff_iff, beq_iff_eq, digests a first b second]
    refine or_iff_left ?_
    rintro ⟨names, ahead | behind⟩
    · exact apart names a first b second ahead
    · exact apart names b second a first behind
  rw [deduplicate_of_digested given, firstKept_entries, unrepeated_congr agree]
  rfl

/-- Three records of two functions with one text, the last of which is there twice. -/
def sharedText : List Record :=
  [⟨"helper", "ret\x00", "arm"⟩, ⟨"main", "ret\x00", "arm"⟩, ⟨"main", "ret\x00", "x86"⟩]

theorem digested_sharedText : Digested false (Record.digest false) sharedText :=
  digested_iff.mpr (by decide)

theorem deduplicate_sharedText :
    Digested false (Record.digest false) sharedText ∧
    (∀ a ∈ sharedText, ∀ b ∈ sharedText,
      a.digest false = b.digest false → a.bytes false = b.bytes false) ∧
    (∀ a ∈ sharedText, ∀ b ∈ sharedText, ¬ a.RunsInto b) ∧
    deduplicate false sharedText =
      .ok ([⟨"helper", Record.digest false ⟨"helper", "ret\x00", "arm"⟩, "ret\x00", "arm"⟩,
        ⟨"main", Record.digest false ⟨"main", "ret\x00", "arm"⟩, "ret\x00", "arm"⟩], ⟨3, 2⟩) := by
  have injective : ∀ a ∈ sharedText, ∀ b ∈ sharedText,
      a.digest false = b.digest false → a.bytes false = b.bytes false := by decide +kernel
  have plain : ∀ b ∈ sharedText, .char '\x00' ∉ b.name.points := by decide
  have apart : ∀ a ∈ sharedText, ∀ b ∈ sharedText, ¬ a.RunsInto b := fun a _ b member =>
    Record.not_runsInto_of_not_mem (plain b member)
  refine ⟨digested_sharedText, injective, apart, ?_⟩
  exact (deduplicate_alike false _ sharedText digested_sharedText injective).2 fun _ => apart

/-- A record whose text holds a null character, and the record that it runs into. -/
def earlierReading : Record := ⟨"f", "g\x00ret", "arm"⟩

def laterReading : Record := ⟨"f\x00g", "ret", "arm"⟩

/-- Records of two functions with two texts are taken for the same, although the digest tells the
bytes that it is made of apart. -/
theorem deduplicate_null_character :
    (∀ a ∈ [earlierReading, laterReading], ∀ b ∈ [earlierReading, laterReading],
      a.digest false = b.digest false → a.bytes false = b.bytes false) ∧
    earlierReading.name ≠ laterReading.name ∧ earlierReading.data ≠ laterReading.data ∧
    earlierReading.digest false = laterReading.digest false ∧
    deduplicate false [earlierReading, laterReading] =
      .ok ([⟨"f", earlierReading.digest false, "g\x00ret", "arm"⟩], ⟨2, 1⟩) := by
  decide +kernel

end FlowCorpus.Dedup
