import Mathlib.Data.List.Infix
import FlowCorpus.Proofs.Text.Substitution

/-!
# Shapes in a text

A shape is what a simple rule looks for: a character of each of some classes, and behind these a
run of a class with a character in it that matters. A shape that is nowhere in a text is still
nowhere in it after words have taken the place of parts of the text, unless a word can begin the
shape or go on with it.
-/

set_option autoImplicit false

namespace FlowCorpus.Text

/-- A character of each class in front, and then a run of a class in which not all is spare. -/
structure Shape where
  front : List (Char → Bool)
  run : Char → Bool
  spare : Char → Bool := fun _ => false

namespace Shape

/-- Whether a text begins with what is left of the shape, of whose front some classes are left. -/
def goesOn (shape : Shape) : List (Char → Bool) → List Char → Bool
  | _, [] => false
  | inClass :: classes, c :: rest => inClass c && shape.goesOn classes rest
  | [], c :: rest => shape.run c && (!shape.spare c || shape.goesOn [] rest)

/-- Whether a text rules out what is left of the shape, whatever comes behind the text. -/
def breaksOff (shape : Shape) : List (Char → Bool) → List Char → Bool
  | _, [] => false
  | inClass :: classes, c :: rest => !inClass c || shape.breaksOff classes rest
  | [], c :: rest => !shape.run c || shape.spare c && shape.breaksOff [] rest

def starts (shape : Shape) (s : List Char) : Bool :=
  shape.goesOn shape.front s

def Absent (shape : Shape) (s : List Char) : Prop :=
  ∀ t, t <:+ s → shape.starts t = false

instance (shape : Shape) (s : List Char) : Decidable (shape.Absent s) :=
  decidable_of_iff (∀ t ∈ s.tails, shape.starts t = false)
    (forall_congr' fun t => by rw [List.mem_tails])

variable {shape : Shape}

theorem goesOn_nil (classes : List (Char → Bool)) : shape.goesOn classes [] = false := by
  cases classes <;> rfl

theorem goesOn_append {classes : List (Char → Bool)} {s : List Char}
    (here : shape.goesOn classes s = true) (more : List Char) :
    shape.goesOn classes (s ++ more) = true := by
  induction s generalizing classes with
  | nil =>
      rw [goesOn_nil] at here
      cases here
  | cons c rest ih =>
      cases classes with
      | nil =>
          rw [goesOn, Bool.and_eq_true, Bool.or_eq_true] at here
          rw [List.cons_append, goesOn, Bool.and_eq_true, Bool.or_eq_true]
          exact ⟨here.1, here.2.imp_right ih⟩
      | cons inClass classes =>
          rw [goesOn, Bool.and_eq_true] at here
          rw [List.cons_append, goesOn, here.1, ih here.2]
          rfl

theorem goesOn_of_breaksOff {classes : List (Char → Bool)} {word : List Char}
    (off : shape.breaksOff classes word = true) (more : List Char) :
    shape.goesOn classes (word ++ more) = false := by
  induction word generalizing classes with
  | nil => cases classes <;> cases off
  | cons c rest ih =>
      cases classes with
      | nil =>
          rw [breaksOff, Bool.or_eq_true, Bool.not_eq_true', Bool.and_eq_true] at off
          rw [List.cons_append, goesOn]
          rcases off with other | ⟨spare, off⟩
          · rw [other, Bool.false_and]
          · rw [spare, ih off, Bool.not_true, Bool.or_false, Bool.and_false]
      | cons inClass classes =>
          rw [breaksOff, Bool.or_eq_true, Bool.not_eq_true'] at off
          rw [List.cons_append, goesOn]
          rcases off with other | off
          · rw [other, Bool.false_and]
          · rw [ih off, Bool.and_false]

theorem absent_nil : shape.Absent [] := by
  intro t behind
  rw [List.suffix_nil.mp behind]
  exact goesOn_nil shape.front

theorem absent_cons {c : Char} {rest : List Char} :
    shape.Absent (c :: rest) ↔ shape.starts (c :: rest) = false ∧ shape.Absent rest := by
  simp only [Absent, List.suffix_cons_iff, forall_eq_or_imp]

theorem Absent.of_suffix {s t : List Char} (absent : shape.Absent s) (behind : t <:+ s) :
    shape.Absent t :=
  fun u inside => absent u (inside.trans behind)

theorem not_absent_of_starts {s : List Char} (here : shape.starts s = true) :
    ¬ shape.Absent s := by
  intro absent
  rw [absent s List.suffix_rfl] at here
  cases here

/-- No end of the word goes on as the shape. -/
theorem absent_append {word t : List Char}
    (off : ∀ rest, rest <:+ word → rest ≠ [] → shape.breaksOff shape.front rest = true)
    (absent : shape.Absent t) : shape.Absent (word ++ t) := by
  induction word with
  | nil => exact absent
  | cons c rest ih =>
      rw [List.cons_append, absent_cons]
      exact ⟨goesOn_of_breaksOff (off _ List.suffix_rfl (List.cons_ne_nil c rest)) t,
        ih fun more behind => off more (behind.trans (List.suffix_cons c rest))⟩

/-! ## What a shape looks for -/

def exactly (word : String) : List (Char → Bool) :=
  word.toList.map fun c d => d == c

theorem goesOn_exactly {word : String} {classes : List (Char → Bool)} {s : List Char} :
    shape.goesOn (exactly word ++ classes) s = true ↔
      ∃ rest, s = word.toList ++ rest ∧ shape.goesOn classes rest = true := by
  unfold exactly
  induction word.toList generalizing s with
  | nil => simp
  | cons c more ih =>
      cases s with
      | nil => simp [goesOn]
      | cons d rest =>
          rw [List.map_cons, List.cons_append, goesOn, Bool.and_eq_true, ih, beq_iff_eq]
          grind

theorem goesOn_replicate {inClass : Char → Bool} {classes : List (Char → Bool)} {n : Nat}
    {s : List Char} : shape.goesOn (List.replicate n inClass ++ classes) s = true ↔
      n ≤ (s.takeWhile inClass).length ∧ shape.goesOn classes (s.drop n) = true := by
  induction n generalizing s with
  | zero => simp
  | succ n ih =>
      cases s with
      | nil => simp [goesOn]
      | cons c rest =>
          rw [List.replicate_succ, List.cons_append, goesOn, Bool.and_eq_true, ih,
            List.drop_succ_cons, List.takeWhile_cons]
          cases inClass c <;> simp

theorem goesOn_run (s : List Char) :
    shape.goesOn [] s = (s.takeWhile shape.run).any fun c => !shape.spare c := by
  induction s with
  | nil => rfl
  | cons c rest ih =>
      rw [goesOn, List.takeWhile_cons]
      cases shape.run c with
      | false => rfl
      | true => rw [Bool.true_and, if_pos rfl, List.any_cons, ih]

theorem goesOn_last (noSpare : shape.spare = fun _ => false) (s : List Char) :
    shape.goesOn [] s = s.head?.any shape.run := by
  cases s with
  | nil => rfl
  | cons c rest => rw [goesOn, noSpare, Bool.not_false, Bool.true_or, Bool.and_true]; rfl

theorem goesOn_replicate_run (noSpare : shape.spare = fun _ => false) {n : Nat} {s : List Char} :
    shape.goesOn (List.replicate n shape.run) s = true ↔
      n < (s.takeWhile shape.run).length := by
  induction n generalizing s with
  | zero =>
      rw [List.replicate_zero, goesOn_last noSpare]
      cases s with
      | nil => simp
      | cons c rest =>
          rw [List.takeWhile_cons, List.head?_cons, Option.any_some]
          cases shape.run c <;> simp
  | succ n ih =>
      rw [List.replicate_succ]
      cases s with
      | nil => simp [goesOn]
      | cons c rest =>
          rw [goesOn, Bool.and_eq_true, ih, List.takeWhile_cons]
          cases shape.run c <;> simp

/-- The rule takes all that begins with one of the shapes, and takes nothing without one of
them. -/
structure Takes (shapes : List Shape) (rule : Rule) : Prop where
  only : ∀ t, (rule t).isSome = true → ∃ shape ∈ shapes, ¬ shape.Absent t
  all : ∀ shape ∈ shapes, ∀ t, shape.starts t = true → (rule t).isSome = true

theorem Takes.of_isSome_iff {shapes : List Shape} {rule : Rule}
    (same : ∀ t, (rule t).isSome = true ↔ ∃ shape ∈ shapes, shape.starts t = true) :
    Takes shapes rule where
  only t matched := by
    obtain ⟨shape, member, starts⟩ := (same t).mp matched
    exact ⟨shape, member, not_absent_of_starts starts⟩
  all shape member t starts := (same t).mpr ⟨shape, member, starts⟩

theorem Takes.unmatched_iff {shapes : List Shape} {rule : Rule} (takes : Takes shapes rule)
    {s : List Char} :
    (∀ t, t <:+ s → rule t = none) ↔ ∀ shape ∈ shapes, shape.Absent s := by
  constructor
  · intro unmatched shape member t behind
    rw [← Bool.not_eq_true]
    intro here
    have matched := takes.all shape member t here
    rw [unmatched t behind] at matched
    cases matched
  · intro absent t behind
    rw [← Option.not_isSome_iff_eq_none]
    intro matched
    obtain ⟨shape, member, present⟩ := takes.only t matched
    exact present ((absent shape member).of_suffix behind)

/-- No rule finds anything just when no shape that a rule looks for is there. -/
theorem unmatched_iff {shapes : List (List Shape)} {rules : List Rule}
    (takes : List.Forall₂ Takes shapes rules) {s : List Char} :
    (∀ rule ∈ rules, ∀ t, t <:+ s → rule t = none) ↔
      ∀ some ∈ shapes, ∀ shape ∈ some, shape.Absent s := by
  induction takes with
  | nil => simp
  | cons first _ ih => rw [List.forall_mem_cons, List.forall_mem_cons, first.unmatched_iff, ih]

theorem exists_takes {shapes : List (List Shape)} {rules : List Rule}
    (takes : List.Forall₂ Takes shapes rules) {some : List Shape} (member : some ∈ shapes) :
    ∃ rule ∈ rules, Takes some rule := by
  induction takes with
  | nil => cases member
  | @cons _ rule _ _ first _ ih =>
      rcases List.mem_cons.mp member with rfl | member
      · exact ⟨rule, List.mem_cons_self, first⟩
      · obtain ⟨other, found, takes⟩ := ih member
        exact ⟨other, .tail _ found, takes⟩

/-! ## Changed texts -/

/-- A word in the place of a text that begins with `lead` does not begin the shape, and goes on
with it only if `lead` does. -/
def keeps (shape : Shape) (lead word : List Char) : Bool :=
  (word.tails.all fun rest => rest.isEmpty || shape.breaksOff shape.front rest) &&
  shape.front.tails.all fun classes => shape.breaksOff classes word || shape.goesOn classes lead

theorem keeps_iff {lead word : List Char} : shape.keeps lead word = true ↔
    (∀ rest, rest <:+ word → rest ≠ [] → shape.breaksOff shape.front rest = true) ∧
    ∀ classes, classes <:+ shape.front →
      shape.breaksOff classes word = true ∨ shape.goesOn classes lead = true := by
  simp only [keeps, Bool.and_eq_true, List.all_eq_true, List.mem_tails, Bool.or_eq_true,
    List.isEmpty_iff, or_iff_not_imp_left]

/-- What is left of the shape is at the start of `t` only if it is at that of `s`, and the shape
is somewhere in `t` only if it is in `s`. -/
structure Within (shape : Shape) (t s : List Char) : Prop where
  goesOn : ∀ classes, classes <:+ shape.front →
    shape.goesOn classes t = true → shape.goesOn classes s = true
  absent : shape.Absent s → shape.Absent t

namespace Within

variable {s t u : List Char}

theorem refl (s : List Char) : Within shape s s :=
  ⟨fun _ _ here => here, fun absent => absent⟩

theorem trans (first : Within shape u t) (second : Within shape t s) : Within shape u s :=
  ⟨fun classes behind here => second.goesOn classes behind (first.goesOn classes behind here),
    fun absent => first.absent (second.absent absent)⟩

theorem nil (s : List Char) : Within shape [] s where
  goesOn classes _ here := by
    rw [goesOn_nil] at here
    cases here
  absent _ := absent_nil

theorem cons (within : Within shape t s) (c : Char) : Within shape (c :: t) (c :: s) := by
  have front : ∀ classes, classes <:+ shape.front →
      shape.goesOn classes (c :: t) = true → shape.goesOn classes (c :: s) = true := by
    intro classes behind here
    cases classes with
    | nil =>
        rw [Shape.goesOn, Bool.and_eq_true, Bool.or_eq_true] at here ⊢
        exact ⟨here.1, here.2.imp_right (within.goesOn [] behind)⟩
    | cons inClass classes =>
        rw [Shape.goesOn, Bool.and_eq_true] at here ⊢
        exact ⟨here.1, within.goesOn classes ((List.suffix_cons _ _).trans behind) here.2⟩
  refine ⟨front, fun absent => ?_⟩
  rw [absent_cons] at absent ⊢
  refine ⟨?_, within.absent absent.2⟩
  rw [← Bool.not_eq_true]
  intro here
  have there : shape.starts (c :: s) = true := front shape.front List.suffix_rfl here
  rw [absent.1] at there
  cases there

theorem append (within : Within shape t s) (front : List Char) :
    Within shape (front ++ t) (front ++ s) := by
  induction front with
  | nil => exact within
  | cons c rest ih => exact ih.cons c

/-- Where nothing of the shape goes on, anything can have been left out. -/
theorem leftOut (within : Within shape t s) (lost : List Char)
    (stuck : ∀ classes, classes <:+ shape.front → shape.goesOn classes t = false) :
    Within shape t (lost ++ s) where
  goesOn classes behind here := by
    rw [stuck classes behind] at here
    cases here
  absent absent := within.absent (absent.of_suffix (List.suffix_append lost s))

/-- Where no class in front takes the character, one of two characters, or a last one, can be
left out. -/
theorem skip (within : Within shape t s) {c : Char} (next : ∀ d ∈ t.head?, d = c)
    (apart : ∀ inClass ∈ shape.front, inClass c = false) : Within shape t (c :: s) where
  goesOn classes behind here := by
    cases t with
    | nil =>
        rw [goesOn_nil] at here
        cases here
    | cons d rest =>
        obtain rfl := next d rfl
        cases classes with
        | nil =>
            have later := within.goesOn [] behind here
            rw [Shape.goesOn, Bool.and_eq_true] at here
            rw [Shape.goesOn, here.1, later, Bool.or_true]
            rfl
        | cons inClass classes =>
            rw [Shape.goesOn, apart inClass (behind.subset List.mem_cons_self)] at here
            cases here
  absent absent := within.absent (absent_cons.mp absent).2

/-- A word that the shape is kept from takes the place of a text. -/
theorem replace {lead word : List Char} (keeps : shape.keeps lead word = true)
    (within : Within shape t s) (more : List Char) :
    Within shape (word ++ t) (lead ++ more ++ s) := by
  rw [keeps_iff] at keeps
  constructor
  · intro classes behind here
    rcases keeps.2 classes behind with off | on
    · rw [goesOn_of_breaksOff off] at here
      cases here
    · exact goesOn_append (goesOn_append on more) s
  · exact fun absent => absent_append keeps.1
      (within.absent (absent.of_suffix (List.suffix_append _ s)))

end Within

/-! ## Rules -/

variable {rule : Rule} {pairs : List (String × String)}

theorem within_substitute (productive : Productive rule) (puts : Puts pairs rule)
    (keeps : ∀ pair ∈ pairs, shape.keeps pair.1.toList pair.2.toList = true) (s : List Char) :
    Within shape (substitute rule s) s := by
  induction s using substituteInduction productive with
  | nil => exact .refl []
  | keep c rest unmatched ih =>
      rw [substitute_of_none unmatched]
      exact ih.cons c
  | put c rest taken word matched ih =>
      obtain ⟨pair, member, ⟨more, whole⟩, rfl⟩ := puts _ _ _ matched
      have parts := List.take_append_drop (taken + 1) (c :: rest)
      rw [← whole, List.drop_succ_cons] at parts
      rw [substitute_of_some matched, ← parts]
      exact ih.replace (keeps pair member) more

/-- A rule that takes what begins with the shape leaves none. -/
theorem absent_substitute (productive : Productive rule) (puts : Puts pairs rule)
    (keeps : ∀ pair ∈ pairs, shape.keeps pair.1.toList pair.2.toList = true)
    (takes : ∀ t, shape.starts t = true → (rule t).isSome = true) (s : List Char) :
    shape.Absent (substitute rule s) := by
  induction s using substituteInduction productive with
  | nil => exact absent_nil
  | keep c rest unmatched ih =>
      rw [substitute_of_none unmatched, absent_cons]
      refine ⟨?_, ih⟩
      rw [← Bool.not_eq_true]
      intro here
      have within := (within_substitute productive puts keeps rest).cons c
      have matched := takes (c :: rest) (within.goesOn shape.front List.suffix_rfl here)
      rw [unmatched] at matched
      cases matched
  | put c rest taken word matched ih =>
      obtain ⟨pair, member, -, rfl⟩ := puts _ _ _ matched
      rw [substitute_of_some matched]
      exact absent_append (keeps_iff.mp (keeps pair member)).1 ih

theorem within_substituteAll {rules : List Rule} (productive : ∀ rule ∈ rules, Productive rule)
    (puts : ∀ rule ∈ rules, Puts pairs rule)
    (keeps : ∀ pair ∈ pairs, shape.keeps pair.1.toList pair.2.toList = true) (s : List Char) :
    Within shape (substituteAll rules s) s := by
  induction rules generalizing s with
  | nil => exact .refl s
  | cons rule rules ih =>
      rw [List.forall_mem_cons] at productive puts
      exact (ih productive.2 puts.2 (substitute rule s)).trans
        (within_substitute productive.1 puts.1 keeps s)

/-- What one of the rules takes is gone after all of them. -/
theorem absent_substituteAll {rules : List Rule} (productive : ∀ rule ∈ rules, Productive rule)
    (puts : ∀ rule ∈ rules, Puts pairs rule)
    (keeps : ∀ pair ∈ pairs, shape.keeps pair.1.toList pair.2.toList = true)
    (member : rule ∈ rules) (takes : ∀ t, shape.starts t = true → (rule t).isSome = true)
    (s : List Char) : shape.Absent (substituteAll rules s) := by
  induction rules generalizing s with
  | nil => exact absurd member List.not_mem_nil
  | cons first rules ih =>
      rw [List.forall_mem_cons] at productive puts
      rcases List.mem_cons.mp member with rfl | member
      · exact (within_substituteAll productive.2 puts.2 keeps _).absent
          (absent_substitute productive.1 puts.1 keeps takes s)
      · exact ih productive.2 puts.2 member _

end Shape

end FlowCorpus.Text
