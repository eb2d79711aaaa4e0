import Mathlib.Data.List.DropRight

/-!
# Words and runs at the ends of a text

A word at the start of a text is found whatever comes behind the text, and a run of characters of a
class, at the start or at the end, goes on to a character outside the class.
-/

set_option autoImplicit false

namespace FlowCorpus.Text

theorem isPrefixOf?_eq_some {word s rest : List Char} :
    word.isPrefixOf? s = some rest ↔ s = word ++ rest := by
  rw [List.isPrefixOf?_eq_some_iff_append_eq, eq_comm]

/-- More text changes nothing about a word in front, unless the word could go on with it. -/
theorem isPrefixOf?_append {word more : List Char} (apart : ∀ c ∈ more.head?, c ∉ word)
    (s : List Char) :
    word.isPrefixOf? (s ++ more) = (word.isPrefixOf? s).map (· ++ more) := by
  induction word generalizing s with
  | nil => rfl
  | cons a word ih =>
      cases s with
      | nil =>
          cases more with
          | nil => rfl
          | cons c rest =>
              have different : a ≠ c := fun same => apart c rfl (same ▸ List.mem_cons_self)
              simp [List.isPrefixOf?, different]
      | cons b s =>
          have rest := ih (fun c head member => apart c head (List.mem_cons_of_mem a member)) s
          simp only [List.cons_append, List.isPrefixOf?]
          split
          · exact rest
          · rfl

variable {p : Char → Bool} {close : Char}

theorem drop_length_takeWhile (p : Char → Bool) (s : List Char) :
    s.drop (s.takeWhile p).length = s.dropWhile p := by
  induction s with
  | nil => rfl
  | cons c rest ih =>
      cases inside : p c with
      | true =>
          rw [List.takeWhile_cons, List.dropWhile_cons, if_pos inside, if_pos inside]
          exact ih
      | false =>
          rw [List.takeWhile_cons, List.dropWhile_cons, inside]
          rfl

/-- A run that no character of the class goes on is the whole run. -/
theorem length_takeWhile_eq {n : Nat} {s : List Char} (inside : n ≤ (s.takeWhile p).length)
    (outside : ∀ c ∈ (s.drop n).head?, p c = false) : (s.takeWhile p).length = n := by
  induction n generalizing s with
  | zero =>
      cases s with
      | nil => rfl
      | cons c rest => rw [List.takeWhile_cons, outside c rfl]; rfl
  | succ n ih =>
      cases s with
      | nil => cases inside
      | cons c rest =>
          rw [List.takeWhile_cons] at inside ⊢
          cases first : p c with
          | false =>
              rw [first] at inside
              cases inside
          | true =>
              rw [if_pos first] at inside
              rw [if_pos rfl, List.length_cons, ih (Nat.le_of_succ_le_succ inside) outside]

theorem takeWhile_run {run : List Char} (all : run.all p = true) (outside : p close = false)
    (rest : List Char) : (run ++ close :: rest).takeWhile p = run := by
  rw [List.takeWhile_append_of_pos (List.all_eq_true.mp all), List.takeWhile_cons, outside]
  exact List.append_nil run

/-- A run of a class ends right before the first separator just when all before that is of the
class. -/
theorem run_meets (outside : p close = false) {piece : List Char} (plain : close ∉ piece)
    (rest : List Char) :
    (((piece ++ close :: rest).drop ((piece ++ close :: rest).takeWhile p).length).head? ==
      some close) = piece.all p := by
  rw [drop_length_takeWhile]
  induction piece with
  | nil =>
      rw [List.nil_append, List.dropWhile_cons, outside]
      exact beq_self_eq_true _
  | cons c more ih =>
      rw [List.mem_cons, not_or] at plain
      rw [List.cons_append, List.dropWhile_cons, List.all_cons]
      cases inside : p c with
      | true => exact ih plain.2
      | false => exact beq_false_of_ne fun same => plain.1 (Option.some.inj same).symm

/-- Without the separator no run ends before it. -/
theorem run_misses {s : List Char} (plain : close ∉ s) (n : Nat) :
    ((s.drop n).head? == some close) = false :=
  beq_false_of_ne fun found => plain (List.mem_of_mem_drop (List.mem_of_mem_head? found))

/-- The run of a class at the end of a text, and what stands before it. -/
theorem rtakeWhile_run {before run : List Char} (all : run.all p = true)
    (outside : ∀ c ∈ before.getLast?, p c = false) :
    (before ++ run).rtakeWhile p = run ∧ (before ++ run).rdropWhile p = before := by
  have each : ∀ c ∈ run.reverse, p c = true := fun c member =>
    List.all_eq_true.mp all c (List.mem_reverse.mp member)
  unfold List.rtakeWhile List.rdropWhile
  rw [List.reverse_append, List.takeWhile_append_of_pos each, List.dropWhile_append_of_pos each]
  cases back : before.reverse with
  | nil => simp [List.reverse_eq_nil_iff.mp back]
  | cons c more =>
      have last : before.getLast? = some c := by
        rw [List.getLast?_eq_head?_reverse, back]
        rfl
      have whole : before = (c :: more).reverse := List.reverse_eq_iff.mp back
      simp [outside c last, whole]

/-- No longer run of the class ends the text. -/
theorem length_le_rtakeWhile {run s : List Char} (behind : run <:+ s)
    (all : run.all p = true) : run.length ≤ (s.rtakeWhile p).length := by
  obtain ⟨front, rfl⟩ := behind
  have each : ∀ c ∈ run.reverse, p c = true := fun c member =>
    List.all_eq_true.mp all c (List.mem_reverse.mp member)
  unfold List.rtakeWhile
  rw [List.reverse_append, List.takeWhile_append_of_pos each, List.length_reverse,
    List.length_append, List.length_reverse]
  exact Nat.le_add_right _ _

end FlowCorpus.Text
