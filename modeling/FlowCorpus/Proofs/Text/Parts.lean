import FlowCorpus.Proofs.Text.Substitution

/-!
# Parts that a rule takes

Substitution takes parts of a text and puts words in their place. If nothing behind a separator
matters to a rule, unless it takes the separator as well, then the rule acts on every piece of the
text on its own, as long as no part that it takes has the separator in it.
-/

set_option autoImplicit false

namespace FlowCorpus.Text

/-- The parts that the rule takes, where the given number of characters at the start have already
been taken. -/
def partsAfter (rule : Rule) : Nat → List Char → List (List Char)
  | _, [] => []
  | taken + 1, _ :: rest => partsAfter rule taken rest
  | 0, c :: rest =>
    match rule (c :: rest) with
    | some (taken + 1, _) => (c :: rest).take (taken + 1) :: partsAfter rule taken rest
    | _ => partsAfter rule 0 rest

def parts (rule : Rule) (s : List Char) : List (List Char) :=
  partsAfter rule 0 s

variable {rule : Rule} {separator : Char}

theorem partsAfter_eq (rule : Rule) (taken : Nat) (s : List Char) :
    partsAfter rule taken s = parts rule (s.drop taken) := by
  induction s generalizing taken with
  | nil => simp [parts, partsAfter]
  | cons c rest ih =>
      cases taken with
      | zero => rfl
      | succ taken => exact ih taken

theorem parts_of_none {c : Char} {rest : List Char} (unmatched : rule (c :: rest) = none) :
    parts rule (c :: rest) = parts rule rest := by
  rw [parts, partsAfter, unmatched]
  rfl

theorem parts_of_some {c : Char} {rest word : List Char} {taken : Nat}
    (matched : rule (c :: rest) = some (taken + 1, word)) :
    parts rule (c :: rest) =
      (c :: rest).take (taken + 1) :: parts rule (rest.drop taken) := by
  rw [parts, partsAfter, matched]
  simp only [partsAfter_eq]

/-- What is true of everything that a rule can take is true of the parts of a text. -/
theorem forall_parts (productive : Productive rule) {p : List Char → Prop}
    (every : ∀ t taken word, rule t = some (taken, word) → p (t.take taken)) (s : List Char) :
    ∀ part ∈ parts rule s, p part := by
  induction s using substituteInduction productive with
  | nil => exact fun part member => absurd member List.not_mem_nil
  | keep c rest unmatched ih => rwa [parts_of_none unmatched]
  | put c rest taken word matched ih =>
      rw [parts_of_some matched, List.forall_mem_cons]
      exact ⟨every _ _ _ matched, ih⟩

/-! ## Words put in -/

/-- No word that the rule puts in has the character. -/
theorem not_mem_substitute (productive : Productive rule) {c : Char}
    (words : ∀ t taken word, rule t = some (taken, word) → c ∉ word) {s : List Char}
    (plain : c ∉ s) : c ∉ substitute rule s := by
  have count := countP_substitute_le (p := (· == c)) productive (fun t taken word found => by
    have none : word.countP (· == c) = 0 := List.count_eq_zero_of_not_mem (words _ _ _ found)
    exact none ▸ Nat.zero_le _) s
  have none : s.countP (· == c) = 0 := List.count_eq_zero_of_not_mem plain
  exact List.count_eq_zero.mp (Nat.le_zero.mp (none ▸ count))

theorem substitute_eq_nil_iff (some : ∀ t taken word, rule t = some (taken, word) → word ≠ [])
    {s : List Char} : substitute rule s = [] ↔ s = [] := by
  cases s with
  | nil => exact iff_of_true rfl rfl
  | cons c rest =>
      refine iff_of_false ?_ (List.cons_ne_nil c rest)
      rw [substitute, substituteAfter]
      split
      · rename_i taken word matched
        exact List.append_ne_nil_of_left_ne_nil (some _ _ _ matched) _
      · exact List.cons_ne_nil _ _

/-- The rule puts in words of a class of characters, none of them empty. -/
def PutsOnly (p : Char → Bool) (rule : Rule) : Prop :=
  ∀ t taken word, rule t = some (taken, word) → word ≠ [] ∧ word.all p = true

variable {p : Char → Bool} {word : List Char}

/-- A word without characters of the class begins the result only where it began the text. -/
theorem prefix_of_prefix_substitute (productive : Productive rule) (puts : PutsOnly p rule)
    (plain : ∀ c ∈ word, p c = false) {s : List Char} (front : word <+: substitute rule s) :
    word <+: s := by
  induction s using substituteInduction productive generalizing word with
  | nil => exact front
  | keep c rest unmatched ih =>
      rw [substitute_of_none unmatched] at front
      cases word with
      | nil => exact List.nil_prefix
      | cons d more =>
          obtain ⟨rfl, behind⟩ := List.cons_prefix_cons.mp front
          exact List.cons_prefix_cons.mpr
            ⟨rfl, ih (fun e member => plain e (.tail d member)) behind⟩
  | put c rest taken put matched ih =>
      rw [substitute_of_some matched] at front
      obtain ⟨some, inClass⟩ := puts _ _ _ matched
      cases word with
      | nil => exact List.nil_prefix
      | cons d more =>
          cases put with
          | nil => exact absurd rfl some
          | cons e put =>
              obtain ⟨rfl, -⟩ := List.cons_prefix_cons.mp front
              rw [List.all_cons, plain d List.mem_cons_self] at inClass
              cases inClass

/-- Nor is it anywhere in the result unless it was in the text. -/
theorem infix_of_infix_substitute (productive : Productive rule) (puts : PutsOnly p rule)
    (plain : ∀ c ∈ word, p c = false) {s : List Char} (inside : word <:+: substitute rule s) :
    word <:+: s := by
  by_cases empty : word = []
  · rw [empty]
    exact List.nil_infix
  induction s using substituteInduction productive with
  | nil => exact inside
  | keep c rest unmatched ih =>
      rw [substitute_of_none unmatched, List.infix_cons_iff] at inside
      rcases inside with front | later
      · rw [← substitute_of_none unmatched] at front
        exact (prefix_of_prefix_substitute productive puts plain front).isInfix
      · exact (ih later).trans (List.suffix_cons c rest).isInfix
  | put c rest taken put matched ih =>
      have apart : ∀ c ∈ word, c ∉ put := fun c member within => by
        have inClass := List.all_eq_true.mp (puts _ _ _ matched).2 c within
        rw [plain c member] at inClass
        cases inClass
      have behind : word <:+: rest.drop taken → word <:+: c :: rest := fun later =>
        later.trans ((List.drop_suffix taken rest).trans (List.suffix_cons c rest)).isInfix
      rw [substitute_of_some matched, List.infix_append_iff] at inside
      rcases inside with here | later | ⟨front, back, rfl, before, after⟩
      · obtain ⟨d, more, rfl⟩ := List.exists_cons_of_ne_nil empty
        exact absurd (here.subset List.mem_cons_self) (apart d List.mem_cons_self)
      · exact behind (ih later)
      · cases front with
        | nil => exact behind (ih after.isInfix)
        | cons d more =>
            exact absurd (before.subset List.mem_cons_self) (apart d List.mem_cons_self)

theorem infix_of_infix_substituteAll {rules : List Rule}
    (productive : ∀ rule ∈ rules, Productive rule) (puts : ∀ rule ∈ rules, PutsOnly p rule)
    (plain : ∀ c ∈ word, p c = false) {s : List Char} (inside : word <:+: substituteAll rules s) :
    word <:+: s := by
  induction rules generalizing s with
  | nil => exact inside
  | cons rule rules ih =>
      rw [List.forall_mem_cons] at productive puts
      exact infix_of_infix_substitute productive.1 puts.1 plain (ih productive.2 puts.2 inside)

/-! ## Rules and separators -/

/-- What stands behind the next separator matters to the rule only if it takes the separator. -/
structure StopsAt (separator : Char) (rule : Rule) : Prop where
  first : ∀ rest, rule (separator :: rest) = none
  piece : ∀ piece rest, separator ∉ piece → rule (piece ++ separator :: rest) = rule piece ∨
    ∃ taken word, rule (piece ++ separator :: rest) = some (taken, word) ∧ piece.length < taken

/-- Up to the separator the rule goes on as if nothing stood behind it. -/
theorem StopsAt.goesOn (stops : StopsAt separator rule) (productive : Productive rule)
    {piece rest : List Char} (plain : separator ∉ piece) {n : Nat} (inside : n ≤ piece.length)
    (kept : ∀ part ∈ partsAfter rule n (piece ++ separator :: rest), separator ∉ part) :
    substituteAfter rule n (piece ++ separator :: rest) =
        substituteAfter rule n piece ++ separator :: substitute rule rest ∧
      partsAfter rule n (piece ++ separator :: rest) =
        partsAfter rule n piece ++ parts rule rest := by
  induction piece generalizing n with
  | nil =>
      obtain rfl := Nat.le_zero.mp inside
      exact ⟨substitute_of_none (stops.first rest), parts_of_none (stops.first rest)⟩
  | cons c more ih =>
      have later := fun {k} => ih (n := k) fun member => plain (.tail c member)
      have piece := stops.piece (c :: more) rest plain
      rw [List.cons_append] at kept piece ⊢
      cases n with
      | succ k => exact later (Nat.le_of_succ_le_succ inside) kept
      | zero =>
          simp only [substituteAfter, partsAfter] at kept ⊢
          cases found : rule (c :: (more ++ separator :: rest)) with
          | none =>
              have same : rule (c :: more) = none := by
                rcases piece with same | ⟨taken, word, other, -⟩
                · rw [← same, found]
                · rw [found] at other
                  cases other
              rw [found] at kept
              rw [same]
              obtain ⟨text, taken⟩ := later (Nat.zero_le _) kept
              exact ⟨congrArg (c :: ·) text, taken⟩
          | some result =>
              obtain ⟨_ | taken, word⟩ := result
              · exact absurd (productive _ _ _ found) (Nat.lt_irrefl 0)
              rw [found] at kept piece
              obtain ⟨own, others⟩ := List.forall_mem_cons.mp kept
              have short : taken ≤ more.length := by
                by_contra long
                have front : c :: (more ++ [separator]) <+:
                    (c :: (more ++ separator :: rest)).take (taken + 1) := by
                  rw [List.prefix_take_iff, List.length_cons, List.length_append]
                  exact ⟨⟨rest, by simp⟩, Nat.succ_le_succ (Nat.lt_of_not_le long)⟩
                exact own (front.subset (by simp))
              have same : rule (c :: more) = some (taken + 1, word) := by
                rcases piece with same | ⟨n, w, other, beyond⟩
                · exact same.symm
                · cases other
                  exact absurd short (Nat.not_le_of_lt (Nat.lt_of_succ_lt_succ beyond))
              rw [same]
              obtain ⟨text, taken⟩ := later short others
              simp only [text, taken, List.take_succ_cons, List.take_append_of_le_length short]
              exact ⟨(List.append_assoc _ _ _).symm, rfl⟩

def Piecewise (separator : Char) (rule : Rule) : Prop :=
  ∀ s, split separator (substitute rule s) = (split separator s).map (substitute rule)

theorem StopsAt.split_substitute (stops : StopsAt separator rule) (productive : Productive rule)
    (words : ∀ t taken word, rule t = some (taken, word) → separator ∉ word) {s : List Char}
    (kept : ∀ part ∈ parts rule s, separator ∉ part) :
    split separator (substitute rule s) = (split separator s).map (substitute rule) := by
  induction s using splitInduction separator with
  | last s plain =>
      rw [split_of_not_mem plain, split_of_not_mem (not_mem_substitute productive words plain),
        List.map_singleton]
  | more piece rest plain ih =>
      obtain ⟨text, taken⟩ := stops.goesOn productive plain (Nat.zero_le _) kept
      have later : ∀ part ∈ parts rule rest, separator ∉ part := by
        rw [parts, taken, List.forall_mem_append] at kept
        exact kept.2
      have own : substitute rule (piece ++ separator :: rest) =
        substitute rule piece ++ separator :: substitute rule rest := text
      rw [own, split_append (not_mem_substitute productive words plain), split_append plain,
        ih later, List.map_cons]

/-- Nothing behind the next separator matters to the rule. -/
structure Confined (separator : Char) (rule : Rule) : Prop where
  bounded : ∀ s taken word, rule s = some (taken, word) → taken ≤ s.length
  piece : ∀ piece rest, separator ∉ piece → rule (piece ++ separator :: rest) = rule piece

theorem Confined.stopsAt (confined : Confined separator rule) (productive : Productive rule) :
    StopsAt separator rule where
  first rest := by
    have same : rule (separator :: rest) = rule [] := confined.piece [] rest List.not_mem_nil
    rw [same, Option.eq_none_iff_forall_ne_some]
    intro result found
    exact absurd (productive _ _ _ found) (Nat.not_lt_of_le (confined.bounded _ _ _ found))
  piece piece rest plain := .inl (confined.piece piece rest plain)

theorem Confined.not_mem_take (confined : Confined separator rule) {t word : List Char}
    {taken : Nat} (found : rule t = some (taken, word)) : separator ∉ t.take taken := by
  by_cases member : separator ∈ t
  · obtain ⟨piece, rest, rfl, plain⟩ := List.eq_append_cons_of_mem member
    rw [confined.piece piece rest plain] at found
    rw [List.take_append_of_le_length (confined.bounded _ _ _ found)]
    exact fun inside => plain (List.mem_of_mem_take inside)
  · exact fun inside => member (List.mem_of_mem_take inside)

theorem Confined.piecewise (confined : Confined separator rule) (productive : Productive rule)
    (words : ∀ t taken word, rule t = some (taken, word) → separator ∉ word) :
    Piecewise separator rule := fun s =>
  (confined.stopsAt productive).split_substitute productive words
    (forall_parts productive (fun _ _ _ found => confined.not_mem_take found) s)

theorem split_substituteAll {rules : List Rule}
    (piecewise : ∀ rule ∈ rules, Piecewise separator rule) (s : List Char) :
    split separator (substituteAll rules s) = (split separator s).map (substituteAll rules) := by
  induction rules generalizing s with
  | nil => exact (List.map_id _).symm
  | cons rule rules ih =>
      rw [List.forall_mem_cons] at piecewise
      change split separator (substituteAll rules (substitute rule s)) = _
      rw [ih piecewise.2, piecewise.1, List.map_map]
      rfl

end FlowCorpus.Text
