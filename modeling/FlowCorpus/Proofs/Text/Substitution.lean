import FlowCorpus.Proofs.Text.Pieces
import FlowCorpus.Text.Substitute

/-!
# Laws of substitution

Substitution goes on behind what it has replaced. A rule that looks at what stands before the next
separator, and replaces the end of that, acts on every piece of the text on its own.
-/

set_option autoImplicit false

namespace FlowCorpus.Text

variable {rule : Rule}

theorem substituteAfter_eq (rule : Rule) (taken : Nat) (s : List Char) :
    substituteAfter rule taken s = substitute rule (s.drop taken) := by
  induction s generalizing taken with
  | nil => simp [substitute, substituteAfter]
  | cons c rest ih =>
      cases taken with
      | zero => rfl
      | succ taken => exact ih taken

theorem substitute_nil (rule : Rule) : substitute rule [] = [] := rfl

theorem substitute_of_none {c : Char} {rest : List Char} (unmatched : rule (c :: rest) = none) :
    substitute rule (c :: rest) = c :: substitute rule rest := by
  rw [substitute, substituteAfter, unmatched]
  rfl

theorem substitute_of_some {c : Char} {rest replacement : List Char} {taken : Nat}
    (matched : rule (c :: rest) = some (taken + 1, replacement)) :
    substitute rule (c :: rest) = replacement ++ substitute rule (rest.drop taken) := by
  rw [substitute, substituteAfter, matched]
  simp only [substituteAfter_eq]

/-- A rule that finds nothing changes nothing. -/
theorem substitute_eq_self {s : List Char} (unmatched : ∀ t, t <:+ s → rule t = none) :
    substitute rule s = s := by
  induction s with
  | nil => rfl
  | cons c rest ih =>
      rw [substitute_of_none (unmatched _ List.suffix_rfl),
        ih fun t behind => unmatched t (behind.trans (List.suffix_cons c rest))]

/-- What the rule finds is at least one character long. -/
def Productive (rule : Rule) : Prop :=
  ∀ s taken word, rule s = some (taken, word) → 0 < taken

/-- A text is empty, or goes on behind a character that the rule leaves, or behind what it
takes. -/
theorem substituteInduction (productive : Productive rule) {motive : List Char → Prop}
    (nil : motive [])
    (keep : ∀ c rest, rule (c :: rest) = none → motive rest → motive (c :: rest))
    (put : ∀ c rest taken word, rule (c :: rest) = some (taken + 1, word) →
      motive (rest.drop taken) → motive (c :: rest))
    (s : List Char) : motive s := by
  -- What is left is shorter, if not the next smaller list.
  have bounded : ∀ n (s : List Char), s.length ≤ n → motive s := by
    intro n
    induction n with
    | zero => exact fun s short => List.length_eq_zero_iff.mp (Nat.le_zero.mp short) ▸ nil
    | succ n ih =>
        intro s short
        cases s with
        | nil => exact nil
        | cons c rest =>
            have shorter : rest.length ≤ n := Nat.le_of_succ_le_succ short
            cases found : rule (c :: rest) with
            | none => exact keep c rest found (ih rest shorter)
            | some result =>
                obtain ⟨taken, word⟩ := result
                cases taken with
                | zero => exact absurd (productive _ _ _ found) (Nat.lt_irrefl 0)
                | succ taken =>
                    refine put c rest taken word found (ih _ ?_)
                    rw [List.length_drop]
                    omega
  exact bounded s.length s (Nat.le_refl _)

/-- The rule puts a word in the place of a text that begins with what the word is paired with. -/
def Puts (pairs : List (String × String)) (rule : Rule) : Prop :=
  ∀ s taken word, rule s = some (taken, word) →
    ∃ pair ∈ pairs, pair.1.toList <+: s.take taken ∧ word = pair.2.toList

theorem Puts.mono {pairs more : List (String × String)} (puts : Puts pairs rule)
    (subset : pairs ⊆ more) : Puts more rule := by
  intro s taken word found
  obtain ⟨pair, member, lead⟩ := puts s taken word found
  exact ⟨pair, subset member, lead⟩

/-- A rule finds nothing in a text in which no match can begin. -/
theorem Puts.unmatched {pairs : List (String × String)} (puts : Puts pairs rule) {s : List Char}
    (none : ∀ pair ∈ pairs, ¬ pair.1.toList <:+: s) : ∀ t, t <:+ s → rule t = .none := by
  intro t behind
  rw [Option.eq_none_iff_forall_ne_some]
  intro result found
  obtain ⟨pair, member, lead, -⟩ := puts t result.1 result.2 found
  exact none pair member ((lead.trans (List.take_prefix _ t)).isInfix.trans behind.isInfix)

/-! ## Counting what is taken out -/

variable {p : Char → Bool}

def Lowers (p : Char → Bool) (rule : Rule) : Prop :=
  ∀ s taken word, rule s = some (taken, word) → word.countP p < (s.take taken).countP p

theorem Lowers.productive (lowers : Lowers p rule) : Productive rule := by
  intro s taken word found
  have less := lowers s taken word found
  rw [Nat.pos_iff_ne_zero]
  rintro rfl
  cases less

theorem Puts.lowers {pairs : List (String × String)} (puts : Puts pairs rule)
    (less : ∀ pair ∈ pairs, pair.2.toList.countP p < pair.1.toList.countP p) : Lowers p rule := by
  intro s taken word found
  obtain ⟨pair, member, lead, rfl⟩ := puts s taken word found
  exact Nat.lt_of_lt_of_le (less pair member) lead.sublist.countP_le

theorem countP_substitute_le (productive : Productive rule)
    (no_more : ∀ s taken word, rule s = some (taken, word) →
      word.countP p ≤ (s.take taken).countP p) (s : List Char) :
    (substitute rule s).countP p ≤ s.countP p := by
  induction s using substituteInduction productive with
  | nil => exact Nat.le_refl _
  | keep c rest unmatched ih =>
      rw [substitute_of_none unmatched, List.countP_cons, List.countP_cons]
      exact Nat.add_le_add_right ih _
  | put c rest taken word matched ih =>
      have parts := congrArg (List.countP p) (List.take_append_drop (taken + 1) (c :: rest))
      rw [List.countP_append, List.drop_succ_cons] at parts
      rw [substitute_of_some matched, List.countP_append, ← parts]
      exact Nat.add_le_add (no_more _ _ _ matched) ih

theorem Lowers.countP_le (lowers : Lowers p rule) (s : List Char) :
    (substitute rule s).countP p ≤ s.countP p :=
  countP_substitute_le lowers.productive
    (fun s taken word found => Nat.le_of_lt (lowers s taken word found)) s

/-- If no character of the class is taken out, the rule finds nothing. -/
theorem Lowers.unmatched (lowers : Lowers p rule) {s : List Char}
    (same : s.countP p ≤ (substitute rule s).countP p) : ∀ t, t <:+ s → rule t = none := by
  induction s using substituteInduction lowers.productive with
  | nil =>
      intro t behind
      obtain rfl := List.suffix_nil.mp behind
      rw [Option.eq_none_iff_forall_ne_some]
      intro result found
      have less := lowers [] result.1 result.2 found
      rw [List.take_nil] at less
      cases less
  | keep c rest unmatched ih =>
      rw [substitute_of_none unmatched, List.countP_cons, List.countP_cons] at same
      intro t behind
      rcases List.suffix_cons_iff.mp behind with rfl | behind
      · exact unmatched
      · exact ih (Nat.le_of_add_le_add_right same) t behind
  | put c rest taken word matched ih =>
      have parts := congrArg (List.countP p) (List.take_append_drop (taken + 1) (c :: rest))
      rw [List.countP_append, List.drop_succ_cons] at parts
      rw [substitute_of_some matched, List.countP_append] at same
      have less := lowers _ _ _ matched
      have others := lowers.countP_le (rest.drop taken)
      omega

theorem countP_substituteAll_le {rules : List Rule} (lower : ∀ rule ∈ rules, Lowers p rule)
    (s : List Char) : (substituteAll rules s).countP p ≤ s.countP p := by
  induction rules generalizing s with
  | nil => exact Nat.le_refl _
  | cons rule rules ih =>
      exact Nat.le_trans (ih (fun other member => lower other (.tail _ member)) _)
        ((lower rule List.mem_cons_self).countP_le s)

/-- Nor does any of several rules, one after the other. -/
theorem unmatched_of_substituteAll {rules : List Rule} (lower : ∀ rule ∈ rules, Lowers p rule)
    {s : List Char} (same : s.countP p ≤ (substituteAll rules s).countP p) :
    ∀ rule ∈ rules, ∀ t, t <:+ s → rule t = none := by
  induction rules with
  | nil => exact fun rule member => absurd member List.not_mem_nil
  | cons rule rules ih =>
      have others : ∀ other ∈ rules, Lowers p other := fun other member =>
        lower other (.tail _ member)
      have first : ∀ t, t <:+ s → rule t = none :=
        (lower rule List.mem_cons_self).unmatched
          (Nat.le_trans same (countP_substituteAll_le others (substitute rule s)))
      change s.countP p ≤ (substituteAll rules (substitute rule s)).countP p at same
      rw [substitute_eq_self first] at same
      rw [List.forall_mem_cons]
      exact ⟨first, ih others same⟩

theorem substituteAll_eq_self {rules : List Rule} {s : List Char}
    (unmatched : ∀ rule ∈ rules, ∀ t, t <:+ s → rule t = none) : substituteAll rules s = s := by
  induction rules with
  | nil => rfl
  | cons rule rules ih =>
      change substituteAll rules (substitute rule s) = s
      rw [substitute_eq_self (unmatched rule List.mem_cons_self)]
      exact ih fun other member => unmatched other (.tail _ member)

/-! ## Rules that end at a separator -/

/-- What a rule makes of the text before a separator: the first end of it that becomes a word,
replaced. -/
def rewriteEnd (word? : List Char → Option (List Char)) : List Char → List Char
  | [] => (word? []).getD []
  | c :: rest => (word? (c :: rest)).getD (c :: rewriteEnd word? rest)

/-- The rule takes what stands before the next separator, and the separator with it, when that is
to become a word. -/
structure EndsAt (separator : Char) (word? : List Char → Option (List Char)) (rule : Rule) :
    Prop where
  none_of_not_mem : ∀ s, separator ∉ s → rule s = none
  piece : ∀ piece rest, separator ∉ piece → rule (piece ++ separator :: rest) =
    (word? piece).map fun word => (piece.length + 1, word ++ [separator])

variable {separator : Char} {word? : List Char → Option (List Char)}

theorem EndsAt.substitute_piece (ends : EndsAt separator word? rule) {piece : List Char}
    (plain : separator ∉ piece) (rest : List Char) :
    substitute rule (piece ++ separator :: rest) =
      rewriteEnd word? piece ++ separator :: substitute rule rest := by
  induction piece with
  | nil =>
      have found := ends.piece [] rest plain
      rw [List.nil_append, List.length_nil] at found
      cases word : word? [] with
      | none =>
          rw [word] at found
          rw [List.nil_append, substitute_of_none found, rewriteEnd, word]
          rfl
      | some w =>
          rw [word] at found
          rw [List.nil_append, substitute_of_some found, rewriteEnd, word, List.drop_zero,
            List.append_assoc]
          rfl
  | cons c more ih =>
      have found := ends.piece (c :: more) rest plain
      have later := ih fun member => plain (.tail c member)
      rw [List.cons_append, List.length_cons] at found
      rw [List.cons_append]
      cases word : word? (c :: more) with
      | none =>
          rw [word] at found
          rw [substitute_of_none found, rewriteEnd, word, later]
          rfl
      | some w =>
          rw [word] at found
          have behind : (more ++ separator :: rest).drop (more.length + 1) = rest := by
            rw [List.drop_append, List.drop_eq_nil_of_le (Nat.le_succ _)]
            simp
          rw [substitute_of_some found, rewriteEnd, word, behind, List.append_assoc]
          rfl

/-- A rule that ends at a separator rewrites the ends of the closed pieces. -/
theorem EndsAt.substitute_eq (ends : EndsAt separator word? rule) (s : List Char) :
    substitute rule s =
      join [separator] (mapClosed (rewriteEnd word?) (split separator s)) := by
  induction s using splitInduction separator with
  | last s plain =>
      rw [split_of_not_mem plain, mapClosed, join_singleton]
      exact substitute_eq_self fun t behind =>
        ends.none_of_not_mem t fun member => plain (behind.subset member)
  | more piece rest plain ih =>
      have some := split_ne_nil separator rest
      rw [ends.substitute_piece plain, ih, split_append plain, mapClosed_cons some,
        join_cons_of_ne_nil (mapClosed_ne_nil some), List.singleton_append]

theorem rewriteEnd_eq_self {s : List Char} (unmatched : ∀ t, t <:+ s → word? t = none) :
    rewriteEnd word? s = s := by
  induction s with
  | nil => rw [rewriteEnd, unmatched [] List.suffix_rfl]; rfl
  | cons c rest ih =>
      rw [rewriteEnd, unmatched _ List.suffix_rfl,
        ih fun t behind => unmatched t (behind.trans (List.suffix_cons c rest))]
      rfl

/-- The longest end that becomes a word is replaced. -/
theorem rewriteEnd_append {before ending word : List Char} (found : word? ending = some word)
    (longest : ∀ t, t <:+ before ++ ending → (word? t).isSome = true →
      t.length ≤ ending.length) :
    rewriteEnd word? (before ++ ending) = before ++ word := by
  induction before with
  | nil => cases ending <;> rw [List.nil_append, rewriteEnd, found] <;> rfl
  | cons c rest ih =>
      have unmatched : word? (c :: rest ++ ending) = none := by
        rw [← Option.not_isSome_iff_eq_none]
        intro matched
        have short := longest _ List.suffix_rfl matched
        rw [List.length_append, List.length_cons] at short
        omega
      rw [List.cons_append] at unmatched ⊢
      rw [rewriteEnd, unmatched,
        ih fun t behind => longest t (behind.trans (List.suffix_cons c (rest ++ ending)))]
      rfl

theorem not_mem_rewriteEnd (words : ∀ t w, word? t = some w → separator ∉ w) {s : List Char}
    (plain : separator ∉ s) : separator ∉ rewriteEnd word? s := by
  induction s with
  | nil =>
      rw [rewriteEnd]
      cases word : word? [] with
      | none => exact plain
      | some w => exact words [] w word
  | cons c rest ih =>
      rw [List.mem_cons, not_or] at plain
      rw [rewriteEnd]
      cases word : word? (c :: rest) with
      | none => exact fun member => (List.mem_cons.mp member).elim plain.1 (ih plain.2)
      | some w => exact words (c :: rest) w word

/-- Rules that end at one separator, one after the other, are one pass over the closed pieces. -/
theorem substituteAll_endsAt {words : List (List Char → Option (List Char))} {rules : List Rule}
    (ends : List.Forall₂ (EndsAt separator) words rules)
    (plain : ∀ word? ∈ words, ∀ t w, word? t = some w → separator ∉ w) (s : List Char) :
    substituteAll rules s = join [separator]
      (mapClosed (fun piece => words.foldl (fun piece word? => rewriteEnd word? piece) piece)
        (split separator s)) := by
  induction ends generalizing s with
  | nil => exact (mapClosed_id (split separator s) ▸ join_split separator s).symm
  | @cons word? rule words rules first _ ih =>
      have closed := not_mem_of_mem_mapClosed (f := rewriteEnd word?)
        (fun piece => not_mem_of_mem_split (s := s))
        fun piece => not_mem_rewriteEnd (plain word? List.mem_cons_self)
      have pieces := mapClosed_ne_nil (f := rewriteEnd word?) (split_ne_nil separator s)
      change substituteAll rules (substitute rule s) = _
      rw [ih fun other member => plain other (.tail _ member), first.substitute_eq,
        split_join pieces closed, mapClosed_mapClosed]
      rfl

end FlowCorpus.Text
