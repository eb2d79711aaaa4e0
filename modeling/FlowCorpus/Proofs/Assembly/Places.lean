import Mathlib.Data.Bool.AllAny
import FlowCorpus.Proofs.Assembly.Disassembly
import FlowCorpus.Proofs.Text.Parts

/-!
# Literals and the operands behind them

The rules for literals act inside single operands, with one exception: an address goes on with any
character of the line that a digit follows, and so takes the space in front of an operand that
begins with a digit, and that digit. Each space taken costs the line one operand. Where none is
taken, every operand is what the rules make of it alone.
-/

set_option autoImplicit false

namespace FlowCorpus.Assembly

open FlowCorpus.Text

/-! ## Rules that stop at a space -/

def immediateRules : List Rule :=
  [highImmediateRule, closedLiteral 1 (some 3) ']' "IMM", closedLiteral 1 (some 4) '(' "IMM"]

def literalRules : List Rule :=
  immediateRules ++ [addressRule]

theorem wordRules_eq : wordRules = literalRules ++ nameRules := rfl

theorem hexRun_append (s rest : List Char) : hexRun (s ++ ' ' :: rest) = hexRun s := by
  unfold hexRun
  induction s with
  | nil => rfl
  | cons c more ih =>
      rw [List.cons_append, List.takeWhile_cons, List.takeWhile_cons]
      cases isHexDigit c with
      | false => rfl
      | true => exact congrArg (· + 1) ih

theorem hexRun_le (s : List Char) : hexRun s ≤ s.length :=
  (List.takeWhile_prefix _).length_le

theorem highImmediateRule_confined : Confined ' ' highImmediateRule where
  bounded s taken word found := by
    obtain ⟨n, digits, same⟩ := Option.map_eq_some_iff.mp found
    obtain ⟨rfl, rfl⟩ := Prod.mk.inj same
    unfold highDigits? at digits
    split at digits
    · rename_i rest marked
      obtain rfl := isPrefixOf?_eq_some.mp marked
      rw [Option.ite_none_right_eq_some] at digits
      obtain rfl := Option.some.inj digits.2
      rw [List.length_append]
      exact Nat.add_le_add_left (hexRun_le rest) _
    · cases digits
  piece piece rest plain := by
    unfold highImmediateRule highDigits?
    rw [(highMark_fits (by decide)).append]
    cases highMark.isPrefixOf? piece with
    | none => rfl
    | some more => simp only [Option.map_some, hexRun_append]

theorem closedLiteral_confined {least : Nat} {most : Option Nat} {close : Char} (word : String)
    (other : close ≠ ' ') : Confined ' ' (closedLiteral least most close word) where
  bounded s taken w found := by
    unfold closedLiteral at found
    split at found
    · rename_i rest marked
      rw [Option.ite_none_right_eq_some, Bool.and_eq_true, beq_iff_eq] at found
      obtain ⟨⟨-, closed⟩, same⟩ := found
      obtain ⟨rfl, -⟩ := Prod.mk.inj (Option.some.inj same)
      have length := ((afterHexMark?_fits (by decide : ' ' ∉ "0xX".toList)).length marked).2
      have inside : hexRun rest < rest.length := by
        by_contra beyond
        rw [List.drop_eq_nil_of_le (Nat.le_of_not_lt beyond)] at closed
        cases closed
      omega
    · cases found
  piece piece rest plain := by
    unfold closedLiteral
    rw [(afterHexMark?_fits (by decide)).append]
    cases afterHexMark? piece with
    | none => rfl
    | some more =>
        have closes : ((more ++ ' ' :: rest).drop (hexRun more)).head? = some close ↔
            (more.drop (hexRun more)).head? = some close := by
          rw [List.drop_append_of_le_length (hexRun_le more), List.head?_append]
          cases (more.drop (hexRun more)).head? with
          | none => simp [other.symm]
          | some c => simp
        simp only [Option.map_some, hexRun_append, Bool.and_eq_true, beq_iff_eq, closes]

/-! ## Addresses -/

theorem placeRun_append (s rest : List Char) :
    placeRun (s ++ ' ' :: rest) = placeRun s ∨ s.length < placeRun (s ++ ' ' :: rest) := by
  fun_induction placeRun s with
  | case1 c d more goesOn ih =>
      rw [List.cons_append, List.cons_append, placeRun, if_pos goesOn, List.length_cons,
        List.length_cons]
      omega
  | case2 c d more stops =>
      rw [List.cons_append, List.cons_append, placeRun, if_neg stops]
      exact .inl rfl
  | case3 s short =>
      rcases s with _ | ⟨c, _ | ⟨d, more⟩⟩
      · exact (Nat.eq_zero_or_pos _).imp_right id
      · have stops : ¬ (c != '\n' && isDigit ' ') = true := by simp [isDigit]
        rw [List.cons_append, List.nil_append, placeRun, if_neg stops]
        exact .inl rfl
      · exact absurd rfl (short c d more)

theorem addressLength?_append (s rest : List Char) :
    addressLength? (s ++ ' ' :: rest) = addressLength? s ∨
      ∃ n, addressLength? (s ++ ' ' :: rest) = some n ∧ s.length < n := by
  have mark : "0x".toList.isPrefixOf? (s ++ ' ' :: rest) =
      ("0x".toList.isPrefixOf? s).map (· ++ ' ' :: rest) :=
    isPrefixOf?_append (fun c first => by cases first; decide) s
  unfold addressLength?
  rw [mark]
  cases front : "0x".toList.isPrefixOf? s with
  | none => exact .inl rfl
  | some more =>
      have length : s.length = 2 + more.length := by
        rw [isPrefixOf?_eq_some.mp front, List.length_append]
        rfl
      simp only [Option.map_some, hexRun_append]
      by_cases long : 3 ≤ hexRun more
      · rw [if_pos long, if_pos long, List.drop_append_of_le_length (hexRun_le more)]
        rcases placeRun_append (more.drop (hexRun more)) rest with same | beyond
        · exact .inl (by rw [same])
        · refine .inr ⟨_, rfl, ?_⟩
          rw [List.length_drop] at beyond
          omega
      · rw [if_neg long, if_neg long]
        exact .inl rfl

def markedLength? (s mark : List Char) : Option Nat :=
  match mark.isPrefixOf? s with
  | some rest => (addressLength? rest).map (mark.length + ·)
  | none => none

theorem markedLength?_eq_some {s mark : List Char} {n : Nat} :
    markedLength? s mark = some n ↔
      ∃ rest k, s = mark ++ rest ∧ addressLength? rest = some k ∧ mark.length + k = n := by
  simp only [← isPrefixOf?_eq_some]
  unfold markedLength?
  cases mark.isPrefixOf? s with
  | none => simp
  | some rest => simp

/-- No mark at all is the last choice. -/
theorem addressRule_eq (s : List Char) :
    addressRule s = ((addressMarks ++ [[]]).findSome? (markedLength? s)).map
      fun n => (n, "MEM".toList) := by
  have unmarked : markedLength? s [] = addressLength? s := by
    unfold markedLength?
    cases s <;> simp [List.isPrefixOf?]
  rw [List.findSome?_append, List.findSome?_singleton, unmarked]
  rfl

/-- Of several lengths the first is the same if each is, or is too long. -/
theorem findSome?_beyond {α : Type} {l : List α} {f g : α → Option Nat} {bound : Nat}
    (each : ∀ a ∈ l, f a = g a ∨ ∃ n, f a = some n ∧ bound < n) :
    l.findSome? f = l.findSome? g ∨ ∃ n, l.findSome? f = some n ∧ bound < n := by
  induction l with
  | nil => exact .inl rfl
  | cons a rest ih =>
      rw [List.forall_mem_cons] at each
      rw [List.findSome?_cons, List.findSome?_cons]
      rcases each.1 with same | ⟨n, found, beyond⟩
      · rw [same]
        cases g a with
        | none => exact ih each.2
        | some n => exact .inl rfl
      · rw [found]
        exact .inr ⟨n, rfl, beyond⟩

theorem addressRule_stopsAt : StopsAt ' ' addressRule where
  first rest := rfl
  piece piece rest plain := by
    have each : ∀ mark ∈ addressMarks ++ [[]],
        markedLength? (piece ++ ' ' :: rest) mark = markedLength? piece mark ∨
          ∃ n, markedLength? (piece ++ ' ' :: rest) mark = some n ∧ piece.length < n := by
      intro mark member
      have apart : ∀ mark ∈ addressMarks ++ [[]], ' ' ∉ mark := by decide
      unfold markedLength?
      rw [isPrefixOf?_append (fun c first => by cases first; exact apart mark member)]
      cases front : mark.isPrefixOf? piece with
      | none => exact .inl rfl
      | some more =>
          have length : piece.length = mark.length + more.length := by
            rw [isPrefixOf?_eq_some.mp front, List.length_append]
          simp only [Option.map_some]
          rcases addressLength?_append more rest with same | ⟨n, found, beyond⟩
          · rw [same]
            exact .inl rfl
          · rw [found, length]
            exact .inr ⟨_, rfl, Nat.add_lt_add_left beyond _⟩
    rw [addressRule_eq, addressRule_eq]
    rcases findSome?_beyond each with same | ⟨n, found, beyond⟩
    · rw [same]
      exact .inl rfl
    · rw [found]
      exact .inr ⟨n, _, rfl, beyond⟩

/-- An address has no space in front of its places. -/
theorem addressRule_eq_some {s word : List Char} {n : Nat}
    (found : addressRule s = some (n, word)) :
    ∃ front rest, s = front ++ rest ∧ IsToken front ∧ n = front.length + placeRun rest := by
  rw [addressRule_eq] at found
  obtain ⟨n, length, same⟩ := Option.map_eq_some_iff.mp found
  obtain ⟨rfl, -⟩ := Prod.mk.inj same
  obtain ⟨mark, member, marked⟩ := List.exists_of_findSome?_eq_some length
  have apart : ∀ mark ∈ addressMarks ++ [[]], ' ' ∉ mark := by decide
  obtain ⟨behind, k, rfl, address, rfl⟩ := markedLength?_eq_some.mp marked
  obtain ⟨more, rfl, -, rfl⟩ := addressLength?_eq_some.mp address
  refine ⟨mark ++ ("0x".toList ++ more.takeWhile isHexDigit), more.drop (hexRun more), ?_, ?_, ?_⟩
  · rw [hexRun, drop_length_takeWhile, List.append_assoc, List.append_assoc,
      List.takeWhile_append_dropWhile]
  · refine ⟨List.append_ne_nil_of_right_ne_nil _ (List.cons_ne_nil _ _), ?_⟩
    rw [List.mem_append, List.mem_append, not_or, not_or]
    refine ⟨apart mark member, by decide, fun inside => ?_⟩
    have digit := List.mem_takeWhile_imp inside
    cases digit
  · have two : "0x".toList.length = 2 := rfl
    rw [List.length_append, List.length_append, two]
    unfold hexRun
    omega

/-! ## Counting tokens -/

/-- The number of tokens that begin in a text, where `fresh` tells whether a token can begin right
at its start. -/
def beginnings : Bool → List Char → Nat
  | _, [] => 0
  | fresh, c :: rest =>
    if c = ' ' then beginnings true rest else fresh.toNat + beginnings false rest

theorem beginnings_append {token : List Char} (isToken : IsToken token) (fresh : Bool)
    (s : List Char) : beginnings fresh (token ++ s) = fresh.toNat + beginnings false s := by
  obtain ⟨some, plain⟩ := isToken
  have within {more : List Char} (plain : ' ' ∉ more) :
      beginnings false (more ++ s) = beginnings false s := by
    induction more with
    | nil => rfl
    | cons c more ih =>
        rw [List.mem_cons, not_or] at plain
        rw [List.cons_append, beginnings, if_neg (Ne.symm plain.1), ih plain.2, Bool.toNat_false,
          Nat.zero_add]
  cases token with
  | nil => exact absurd rfl some
  | cons c more =>
      rw [List.mem_cons, not_or] at plain
      rw [List.cons_append, beginnings, if_neg (Ne.symm plain.1), within plain.2]

theorem length_tokens (s : List Char) : (tokens ' ' s).length = beginnings true s := by
  induction s using splitInduction ' ' with
  | last s plain =>
      by_cases empty : s = []
      · rw [empty]
        rfl
      · have one := beginnings_append ⟨empty, plain⟩ true []
        rw [List.append_nil] at one
        rw [tokens_of_not_mem plain empty, one]
        rfl
  | more piece rest plain ih =>
      by_cases empty : piece = []
      · rw [empty]
        exact ih
      · rw [tokens_append plain empty, List.length_cons, ih, beginnings_append ⟨empty, plain⟩,
          beginnings, if_pos rfl, Nat.add_comm]
        rfl

/-- Each space among the places of an address stands between two tokens. -/
theorem beginnings_placeRun (s t : List Char) :
    beginnings false (s.take (placeRun s) ++ t) =
      (s.take (placeRun s)).count ' ' + beginnings false t := by
  fun_induction placeRun s with
  | case1 c d more goesOn ih =>
      have digit : d ≠ ' ' := by
        rintro rfl
        rw [Bool.and_eq_true] at goesOn
        exact absurd goesOn.2 (by decide)
      rw [List.take_succ_cons, List.take_succ_cons, List.cons_append, List.cons_append, beginnings,
        beginnings, beginnings, if_neg digit, if_neg digit, ih, List.count_cons, List.count_cons]
      by_cases space : c = ' '
      · simp [space, digit]
        omega
      · simp [space, digit]
  | case2 c d more stops => simp
  | case3 s short => simp

theorem beginnings_taken {s word : List Char} {n : Nat} (found : addressRule s = some (n, word))
    (fresh : Bool) (t : List Char) : beginnings fresh (s.take n ++ t) =
      fresh.toNat + ((s.take n).count ' ' + beginnings false t) := by
  obtain ⟨front, rest, rfl, isToken, rfl⟩ := addressRule_eq_some found
  rw [List.take_length_add_append, List.append_assoc, beginnings_append isToken,
    beginnings_placeRun, List.count_append, List.count_eq_zero_of_not_mem isToken.2, Nat.zero_add]

/-- Characters that words put in can have: all but small letters and spaces. -/
def isPutIn (c : Char) : Bool :=
  !isLower c && c != ' '

theorem wordRules_putsOnly : ∀ rule ∈ wordRules, PutsOnly isPutIn rule := by
  have every : ∀ pair ∈ replacements, pair.2.toList ≠ [] ∧ pair.2.toList.all isPutIn = true := by
    decide
  intro rule member t taken word found
  obtain ⟨pair, known, -, rfl⟩ := wordRules_puts rule member t taken word found
  exact every pair known

theorem isToken_of_found {rule : Rule} (member : rule ∈ wordRules) {t word : List Char}
    {taken : Nat} (found : rule t = some (taken, word)) : IsToken word := by
  obtain ⟨some, inClass⟩ := wordRules_putsOnly rule member t taken word found
  exact ⟨some, fun space => absurd (List.all_eq_true.mp inClass ' ' space) (by decide)⟩

theorem addressRule_mem : addressRule ∈ wordRules := by
  simp [wordRules]

/-- Each space that the rule for addresses takes costs one token. -/
theorem beginnings_substitute (fresh : Bool) (s : List Char) :
    beginnings fresh (substitute addressRule s) + (parts addressRule s).flatten.count ' ' =
      beginnings fresh s := by
  have productive := wordRules_productive addressRule addressRule_mem
  induction s using substituteInduction productive generalizing fresh with
  | nil => rfl
  | keep c rest unmatched ih =>
      rw [substitute_of_none unmatched, parts_of_none unmatched, beginnings, beginnings]
      split
      · exact ih true
      · rw [Nat.add_assoc, ih false]
  | put c rest taken word matched ih =>
      have isToken := isToken_of_found addressRule_mem matched
      have whole := beginnings_taken matched fresh (rest.drop taken)
      rw [← List.drop_succ_cons (a := c), List.take_append_drop] at whole
      rw [substitute_of_some matched, parts_of_some matched, List.flatten_cons, List.count_append,
        beginnings_append isToken, whole, List.drop_succ_cons, ← ih false]
      omega

/-! ## Tokens one by one -/

theorem tokens_append_space (s rest : List Char) :
    tokens ' ' (s ++ ' ' :: rest) = tokens ' ' s ++ tokens ' ' rest := by
  rw [tokens, split_append_separator, List.filter_append]
  rfl

/-- Merging spaces changes no token. -/
theorem tokens_mergeSpacePairs (s : List Char) : tokens ' ' (mergeSpacePairs s) = tokens ' ' s := by
  -- The text in front takes in, one by one, the characters that stay.
  have behind (front : List Char) :
      tokens ' ' (front ++ mergeSpacePairs s) = tokens ' ' (front ++ s) := by
    fun_induction mergeSpacePairs s generalizing front with
    | case1 rest ih =>
        have later := ih []
        rw [tokens_append_space, tokens_append_space, ← List.nil_append (' ' :: rest),
          tokens_append_space]
        exact congrArg (tokens ' ' front ++ ·) later
    | case2 c rest _ ih =>
        have later := ih (front ++ [c])
        rwa [List.append_assoc, List.append_assoc] at later
    | case3 => rfl
  exact behind []

/-- What acts on every piece, and makes none empty, acts on every token. -/
theorem tokens_eq_map {f : List Char → List Char} {s : List Char}
    (pieces : split ' ' (f s) = (split ' ' s).map f) (empty : ∀ t, f t = [] ↔ t = []) :
    tokens ' ' (f s) = (tokens ' ' s).map f := by
  have same : ((fun piece : List Char => !piece.isEmpty) ∘ f) = fun piece => !piece.isEmpty := by
    funext piece
    have iff := empty piece
    rw [← List.isEmpty_iff, ← List.isEmpty_iff, ← Bool.eq_iff_iff] at iff
    rw [Function.comp, iff]
  rw [tokens, pieces, List.filter_map, same]
  rfl

theorem substituteAll_eq_nil_iff {rules : List Rule} (words : ∀ rule ∈ rules, rule ∈ wordRules)
    (s : List Char) : substituteAll rules s = [] ↔ s = [] := by
  induction rules generalizing s with
  | nil => rfl
  | cons rule rules ih =>
      rw [List.forall_mem_cons] at words
      change substituteAll rules (substitute rule s) = [] ↔ _
      rw [ih words.2, substitute_eq_nil_iff fun _ _ _ found => (isToken_of_found words.1 found).1]

theorem literalRules_subset : ∀ rule ∈ literalRules, rule ∈ wordRules := fun _ member =>
  wordRules_eq ▸ List.mem_append_left nameRules member

theorem immediateRules_subset : ∀ rule ∈ immediateRules, rule ∈ wordRules := fun rule member =>
  literalRules_subset rule (List.mem_append_left _ member)

theorem immediateRules_piecewise : ∀ rule ∈ immediateRules, Piecewise ' ' rule := by
  have confined : ∀ rule ∈ immediateRules, Confined ' ' rule := by
    refine List.forall_mem_cons.mpr ⟨highImmediateRule_confined, ?_⟩
    refine List.forall_mem_cons.mpr ⟨closedLiteral_confined "IMM" (by decide), ?_⟩
    exact List.forall_mem_singleton.mpr (closedLiteral_confined "IMM" (by decide))
  intro rule member
  have known := immediateRules_subset rule member
  exact (confined rule member).piecewise (wordRules_productive rule known)
    fun _ _ _ found => (isToken_of_found known found).2

theorem tokens_immediates (s : List Char) :
    tokens ' ' (substituteAll immediateRules s) =
      (tokens ' ' s).map (substituteAll immediateRules) :=
  tokens_eq_map (split_substituteAll immediateRules_piecewise s)
    (substituteAll_eq_nil_iff immediateRules_subset)

/-- Addresses that take no space are replaced in each token on its own. -/
theorem tokens_addresses {s : List Char} (kept : ∀ part ∈ parts addressRule s, ' ' ∉ part) :
    tokens ' ' (substitute addressRule s) = (tokens ' ' s).map (substitute addressRule) :=
  tokens_eq_map
    (addressRule_stopsAt.split_substitute (wordRules_productive addressRule addressRule_mem)
      (fun _ _ _ found => (isToken_of_found addressRule_mem found).2) kept)
    fun _ => substitute_eq_nil_iff fun _ _ _ found => (isToken_of_found addressRule_mem found).1

/-! ## Lines without names -/

def nameWords : List String :=
  ["str", "method", "fcn", "sym", "obj", "reloc", "loc", "nop"]

/-- A word that stands in no piece between spaces stands nowhere. -/
theorem infix_iff_exists_token {word : List Char} (isToken : IsToken word) {s : List Char} :
    word <:+: s ↔ ∃ token ∈ tokens ' ' s, word <:+: token := by
  rw [infix_iff_exists_piece isToken.2]
  refine ⟨fun ⟨piece, member, inside⟩ => ⟨piece, List.mem_filter.mpr ⟨member, ?_⟩, inside⟩,
    fun ⟨token, member, inside⟩ => ⟨token, (List.mem_filter.mp member).1, inside⟩⟩
  cases piece with
  | nil => exact absurd (List.infix_nil.mp inside) isToken.1
  | cons c more => rfl

theorem infix_of_infix_spaceOperands {word s : List Char} (isToken : IsToken word)
    (inside : word <:+: spaceOperands s) : word <:+: s := by
  rw [infix_iff_exists_token isToken, spaceOperands_eq, tokens_mergeSpacePairs,
    ← infix_iff_exists_token isToken] at inside
  obtain ⟨more, within, rfl⟩ := List.infix_map_iff.mp inside
  have same : ∀ c ∈ more, spaceForComma c = c := fun c member => by
    refine if_neg fun (comma : c = ',') => isToken.2 ?_
    subst comma
    exact List.mem_map_of_mem (f := spaceForComma) member
  rwa [List.map_congr_left same, List.map_id']

/-- No rule for literals brings a word in. -/
theorem infix_of_infix_literals {word : String} (known : word ∈ nameWords) {s : List Char}
    (inside : word.toList <:+: substituteAll literalRules (spaceOperands s)) :
    word.toList <:+: s := by
  have every : ∀ word ∈ nameWords, (word.toList ≠ [] ∧ ' ' ∉ word.toList) ∧
      (word.toList.all fun c => isPutIn c = false) = true := by
    decide
  obtain ⟨isToken, small⟩ := every word known
  rw [List.all_iff_forall_prop] at small
  refine infix_of_infix_spaceOperands isToken (infix_of_infix_substituteAll ?_ ?_ small inside)
  · exact fun rule member => wordRules_productive rule (literalRules_subset rule member)
  · exact fun rule member => wordRules_putsOnly rule (literalRules_subset rule member)

/-- In a line without the words of names only literals are replaced. -/
theorem normalizeOperands_of_unnamed {s : List Char}
    (unnamed : ∀ word ∈ nameWords, ¬ word.toList <:+: s) :
    normalizeOperands s = substituteAll literalRules (spaceOperands s) := by
  have absent : ∀ word ∈ nameWords,
      ¬ word.toList <:+: substituteAll literalRules (spaceOperands s) :=
    fun word known inside => unnamed word known (infix_of_infix_literals known inside)
  have names : ∀ rule ∈ nameRules, ∀ t, t <:+ substituteAll literalRules (spaceOperands s) →
      rule t = none := by
    have leads : ∀ pair ∈ nameReplacements, ∃ word ∈ nameWords,
        word.toList <:+: pair.1.toList := by
      decide
    refine fun rule member => (nameRules_puts rule member).unmatched fun pair known lead => ?_
    obtain ⟨word, named, front⟩ := leads pair known
    exact absent word named (front.trans lead)
  have effect : ∀ t, t <:+ substituteAll literalRules (spaceOperands s) → nopRule t = none :=
    nopRule_puts.unmatched (List.forall_mem_singleton.mpr (absent "nop" (by decide)))
  have twice : substituteAll wordRules (spaceOperands s) =
      substituteAll nameRules (substituteAll literalRules (spaceOperands s)) := by
    rw [wordRules_eq]
    exact List.foldl_append
  rw [normalizeOperands_eq, twice, substituteAll_eq_self names, substitute_eq_self effect]

/-! ## Operands -/

def operands (text : String) : List (List Char) :=
  tokens ' ' (text.toList.map spaceForComma)

def literal (operand : List Char) : List Char :=
  substituteAll literalRules operand

def addresses (text : String) : List (List Char) :=
  parts addressRule (substituteAll immediateRules (spaceOperands text.toList))

theorem substituteAll_literalRules (s : List Char) :
    substituteAll literalRules s = substitute addressRule (substituteAll immediateRules s) :=
  List.foldl_append

def Marked (operand : List Char) : Prop :=
  "0x".toList <:+: operand ∨ "0X".toList <:+: operand

theorem closedLiteral_marked {least : Nat} {most : Option Nat} {close : Char} {word : String}
    {t : List Char} (matched : (closedLiteral least most close word t).isSome = true) :
    Marked t := by
  unfold closedLiteral at matched
  split at matched
  · rename_i rest marked
    rcases afterHexMark?_eq_some.mp marked with rfl | rfl
    · exact .inl (List.prefix_append "0x".toList rest).isInfix
    · exact .inr (List.prefix_append "0X".toList rest).isInfix
  · cases matched

theorem literalRules_marked : ∀ rule ∈ literalRules, ∀ t, (rule t).isSome = true → Marked t := by
  refine List.forall_mem_cons.mpr ⟨fun t matched => ?_, ?_⟩
  · obtain ⟨rest, rfl, -⟩ := addressShape_starts.mp (highImmediateRule_only matched)
    exact .inl (List.prefix_append _ rest).isInfix
  refine List.forall_mem_cons.mpr ⟨fun t => closedLiteral_marked, ?_⟩
  refine List.forall_mem_cons.mpr ⟨fun t => closedLiteral_marked, ?_⟩
  refine List.forall_mem_singleton.mpr fun t matched => ?_
  rw [addressRule_eq, Option.isSome_map] at matched
  obtain ⟨n, found⟩ := Option.isSome_iff_exists.mp matched
  obtain ⟨mark, -, length⟩ := List.exists_of_findSome?_eq_some found
  obtain ⟨behind, k, rfl, address, -⟩ := markedLength?_eq_some.mp length
  obtain ⟨rest, rfl, -, -⟩ := addressLength?_eq_some.mp address
  exact .inl ⟨mark, rest, List.append_assoc _ _ _⟩

/-- Without a mark nothing of an operand is replaced. -/
theorem literal_eq_self {operand : List Char} (unmarked : ¬ Marked operand) :
    literal operand = operand := by
  refine substituteAll_eq_self fun rule member t behind => ?_
  rw [← Option.not_isSome_iff_eq_none]
  intro matched
  exact unmarked ((literalRules_marked rule member t matched).imp (·.trans behind.isInfix)
    (·.trans behind.isInfix))

structure Kept (before after : List (List Char)) : Prop where
  length : after.length = before.length
  unmarked : ∀ (i : Nat) (operand : List Char),
    before[i]? = some operand → ¬ Marked operand → after[i]? = some operand

theorem kept_map_literal (before : List (List Char)) : Kept before (before.map literal) where
  length := List.length_map literal
  unmarked i operand found unmarked := by
    rw [List.getElem?_map, found, Option.map_some, literal_eq_self unmarked]

/-- In a line without the words of names each space that an address takes costs one operand. The
operands keep their places exactly when no address takes a space, and then each is what the rules
for literals make of it alone. -/
theorem operands_normalizeDisassembly {text : String}
    (unnamed : ∀ word ∈ nameWords, ¬ word.toList <:+: text.toList) :
    (tokens ' ' (normalizeDisassembly text false).toList).length +
        (addresses text).flatten.count ' ' = (operands text).length ∧
    (Kept (operands text) (tokens ' ' (normalizeDisassembly text false).toList) ↔
      ∀ address ∈ addresses text, ' ' ∉ address) ∧
    ((∀ address ∈ addresses text, ' ' ∉ address) →
      tokens ' ' (normalizeDisassembly text false).toList = (operands text).map literal) := by
  have line : (normalizeDisassembly text false).toList =
      substitute addressRule (substituteAll immediateRules (spaceOperands text.toList)) := by
    rw [toList_normalizeDisassembly, normalizeLine_false, normalizeOperands_of_unnamed unnamed,
      substituteAll_literalRules]
  have immediates : tokens ' ' (substituteAll immediateRules (spaceOperands text.toList)) =
      (operands text).map (substituteAll immediateRules) := by
    rw [tokens_immediates, spaceOperands_eq, tokens_mergeSpacePairs, operands]
  have count : (tokens ' ' (normalizeDisassembly text false).toList).length +
      (addresses text).flatten.count ' ' = (operands text).length := by
    rw [line, length_tokens, addresses, beginnings_substitute, ← length_tokens, immediates,
      List.length_map]
  have each (kept : ∀ address ∈ addresses text, ' ' ∉ address) :
      tokens ' ' (normalizeDisassembly text false).toList = (operands text).map literal := by
    rw [line, tokens_addresses kept, immediates, List.map_map]
    exact List.map_congr_left fun operand _ => (substituteAll_literalRules operand).symm
  refine ⟨count, ⟨fun kept address member space => ?_, fun kept => ?_⟩, each⟩
  · have none : (addresses text).flatten.count ' ' = 0 := by
      have length := kept.length
      omega
    exact List.count_eq_zero.mp none (List.mem_flatten.mpr ⟨address, member, space⟩)
  · rw [each kept]
    exact kept_map_literal (operands text)

theorem operands_normalizeDisassembly_index :
    (∀ word ∈ nameWords, ¬ word.toList <:+: "add byte [rax + 0x3d], bh, 0x1000.2".toList) ∧
    Kept (operands "add byte [rax + 0x3d], bh, 0x1000.2")
      (tokens ' ' "add byte [rax + IMM] bh MEM".toList) := by
  have unnamed : ∀ word ∈ nameWords,
      ¬ word.toList <:+: "add byte [rax + 0x3d], bh, 0x1000.2".toList := by decide +kernel
  have line : normalizeDisassembly "add byte [rax + 0x3d], bh, 0x1000.2" false =
      "add byte [rax + IMM] bh MEM" := by decide +kernel
  have all := operands_normalizeDisassembly unnamed
  rw [line] at all
  exact ⟨unnamed, all.2.1.mpr (by decide +kernel)⟩

/-- An address takes the operand behind it when that is a digit. -/
theorem normalizeDisassembly_enter :
    (∀ word ∈ nameWords, ¬ word.toList <:+: "enter 0x1000, 0".toList) ∧
    normalizeDisassembly "enter 0x1000, 0" false = "enter MEM" ∧
    ¬ Kept (operands "enter 0x1000, 0")
      (tokens ' ' (normalizeDisassembly "enter 0x1000, 0" false).toList) :=
  ⟨by decide +kernel, by decide +kernel, fun kept => absurd kept.length (by decide +kernel)⟩

end FlowCorpus.Assembly
