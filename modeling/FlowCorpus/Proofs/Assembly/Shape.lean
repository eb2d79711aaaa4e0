import FlowCorpus.Assembly.Disassembly
import FlowCorpus.Proofs.Assembly.Literal
import FlowCorpus.Proofs.Text.Shape

/-!
# What the rules for disassembly look for

Each rule puts a word in the place of a text that has a certain shape.
-/

set_option autoImplicit false

namespace FlowCorpus.Assembly

open FlowCorpus.Text

/-! ## Words put in -/

/-- The texts that rules other than the last one take begin so, and become these words. -/
def replacements : List (String × String) :=
  [("0x", "IMM"), ("0x", "IMM]"), ("0X", "IMM]"), ("0x", "IMM("), ("0X", "IMM("),
    ("case.", "MEM"), ("0x", "MEM"), ("aav.", "MEM"), ("str", "STR"), ("method", "FUNC"),
    ("fcn", "FUNC"), ("sym", "FUNC"), ("-[obj", "DATA"), ("-obj", "DATA"), ("[obj", "DATA"),
    ("obj", "DATA"), ("[reloc", "FUNC"), ("loc", "FUNC")]

def nameReplacements : List (String × String) :=
  [("str", "STR"), ("method", "FUNC"), ("fcn", "FUNC"), ("sym", "FUNC"), ("-[obj", "DATA"),
    ("-obj", "DATA"), ("[obj", "DATA"), ("obj", "DATA"), ("[reloc", "FUNC"), ("loc", "FUNC")]

theorem highImmediateRule_puts : Puts replacements highImmediateRule := by
  intro s taken word found
  obtain ⟨n, digits, same⟩ := Option.map_eq_some_iff.mp found
  obtain ⟨rfl, rfl⟩ := Prod.mk.inj same
  unfold highDigits? at digits
  split at digits
  · rename_i rest marked
    obtain rfl := isPrefixOf?_eq_some.mp marked
    rw [Nat.add_comm]
    exact ⟨("0x", "IMM"), by decide, ⟨('f' :: 'f' :: 'f' :: 'f' :: rest).take (n + 4), rfl⟩, rfl⟩
  · cases digits

theorem closedLiteral_puts {least : Nat} {most : Option Nat} {close : Char} {word : String}
    (closed : String) (whole : word.toList ++ [close] = closed.toList)
    (small : ("0x", closed) ∈ replacements)
    (capital : ("0X", closed) ∈ replacements) :
    Puts replacements (closedLiteral least most close word) := by
  intro s taken replacement found
  unfold closedLiteral at found
  split at found
  · rename_i rest marked
    rw [Option.ite_none_right_eq_some] at found
    obtain ⟨-, same⟩ := found
    obtain ⟨rfl, rfl⟩ := Prod.mk.inj (Option.some.inj same)
    rcases afterHexMark?_eq_some.mp marked with rfl | rfl
    · have lead : "0x".toList <+: ('0' :: 'x' :: rest).take (hexRun rest + 3) :=
        ⟨rest.take (hexRun rest + 1), rfl⟩
      exact ⟨_, small, lead, whole⟩
    · have lead : "0X".toList <+: ('0' :: 'X' :: rest).take (hexRun rest + 3) :=
        ⟨rest.take (hexRun rest + 1), rfl⟩
      exact ⟨_, capital, lead, whole⟩
  · cases found

theorem addressLength?_eq_some {s : List Char} {n : Nat} :
    addressLength? s = some n ↔ ∃ rest, s = "0x".toList ++ rest ∧ 3 ≤ hexRun rest ∧
      2 + hexRun rest + placeRun (rest.drop (hexRun rest)) = n := by
  simp only [← isPrefixOf?_eq_some]
  unfold addressLength?
  cases "0x".toList.isPrefixOf? s with
  | none => simp
  | some rest => simp

theorem addressRule_puts : Puts replacements addressRule := by
  intro s taken word found
  obtain ⟨n, length, same⟩ := Option.map_eq_some_iff.mp found
  obtain ⟨rfl, rfl⟩ := Prod.mk.inj same
  rcases Option.or_eq_some_iff.mp length with marked | ⟨-, plain⟩
  · obtain ⟨mark, member, found⟩ := List.exists_of_findSome?_eq_some marked
    split at found
    · rename_i rest front
      obtain ⟨k, -, rfl⟩ := Option.map_eq_some_iff.mp found
      obtain rfl := isPrefixOf?_eq_some.mp front
      have lead : mark <+: (mark ++ rest).take (mark.length + k) :=
        List.prefix_take_iff.mpr ⟨List.prefix_append mark rest, Nat.le_add_right _ _⟩
      simp only [addressMarks, List.mem_cons, List.not_mem_nil, or_false] at member
      rcases member with rfl | rfl | rfl
      · exact ⟨("case.", "MEM"), by decide, lead, rfl⟩
      · exact ⟨("0x", "MEM"), by decide, lead, rfl⟩
      · exact ⟨("aav.", "MEM"), by decide, lead, rfl⟩
    · cases found
  · obtain ⟨rest, rfl, -, rfl⟩ := addressLength?_eq_some.mp plain
    refine ⟨("0x", "MEM"), by decide, List.prefix_take_iff.mpr ⟨List.prefix_append _ rest, ?_⟩, rfl⟩
    exact Nat.le_trans (Nat.le_add_right 2 _) (Nat.le_add_right _ _)

theorem wordRule_eq_some {word replacement : String} {extent : List Char → List Char}
    {s w : List Char} {n : Nat} :
    wordRule word extent replacement s = some (n, w) ↔
      ∃ rest, s = word.toList ++ rest ∧ extent rest ≠ [] ∧
        word.length + (extent rest).length = n ∧ replacement.toList = w := by
  simp only [← isPrefixOf?_eq_some]
  unfold wordRule
  cases word.toList.isPrefixOf? s with
  | none => simp
  | some rest => simp

theorem wordRule_puts {word replacement : String} {pairs : List (String × String)}
    (extent : List Char → List Char) (member : (word, replacement) ∈ pairs) :
    Puts pairs (wordRule word extent replacement) := by
  intro s taken w found
  obtain ⟨rest, rfl, -, rfl, rfl⟩ := wordRule_eq_some.mp found
  refine ⟨_, member, List.prefix_take_iff.mpr ⟨List.prefix_append _ rest, ?_⟩, rfl⟩
  rw [String.length_toList]
  exact Nat.le_add_right _ _

theorem functionRule_puts : Puts nameReplacements functionRule := by
  intro s taken word found
  rcases Option.or_eq_some_iff.mp found with here | ⟨-, here⟩
  · exact wordRule_puts solidLine (by decide) s taken word here
  · exact wordRule_puts solidLine (by decide) s taken word here

theorem objectRule_puts : Puts nameReplacements objectRule := by
  intro s taken word found
  obtain ⟨mark, member, found⟩ := List.exists_of_findSome?_eq_some found
  obtain ⟨rest, front, same⟩ := Option.map_eq_some_iff.mp found
  obtain ⟨rfl, rfl⟩ := Prod.mk.inj same
  obtain rfl := isPrefixOf?_eq_some.mp front
  have lead : mark <+: (mark ++ rest).take (mark.length + (solidRun rest).length) :=
    List.prefix_take_iff.mpr ⟨List.prefix_append mark rest, Nat.le_add_right _ _⟩
  simp only [objectMarks, List.mem_cons, List.not_mem_nil, or_false] at member
  rcases member with rfl | rfl | rfl | rfl
  · exact ⟨("-[obj", "DATA"), by decide, lead, rfl⟩
  · exact ⟨("-obj", "DATA"), by decide, lead, rfl⟩
  · exact ⟨("[obj", "DATA"), by decide, lead, rfl⟩
  · exact ⟨("obj", "DATA"), by decide, lead, rfl⟩

theorem localRule_puts : Puts nameReplacements localRule := by
  intro s taken word found
  unfold localRule at found
  split at found
  · rename_i c rest front
    obtain rfl := isPrefixOf?_eq_some.mp front
    rw [Option.ite_none_right_eq_some] at found
    obtain ⟨n, -, same⟩ := Option.map_eq_some_iff.mp found.2
    obtain ⟨rfl, rfl⟩ := Prod.mk.inj same
    have long : 3 ≤ 4 + n := Nat.le_trans (by decide) (Nat.le_add_right 4 n)
    exact ⟨("loc", "FUNC"), by decide,
      List.prefix_take_iff.mpr ⟨List.prefix_append _ (c :: rest), long⟩, rfl⟩
  · cases found

/-- The rules that put words in: all but the last one. -/
def wordRules : List Rule :=
  [highImmediateRule, closedLiteral 1 (some 3) ']' "IMM", closedLiteral 1 (some 4) '(' "IMM",
    addressRule, stringRule, methodRule, functionRule, objectRule, relocationRule, localRule]

theorem disassemblyRules_eq : disassemblyRules = wordRules ++ [nopRule] := rfl

def nameRules : List Rule :=
  [stringRule, methodRule, functionRule, objectRule, relocationRule, localRule]

theorem nameRules_puts : ∀ rule ∈ nameRules, Puts nameReplacements rule := by
  simp only [nameRules, List.forall_mem_cons, List.not_mem_nil, false_imp_iff, implies_true]
  refine ⟨?_, ?_, functionRule_puts, objectRule_puts, ?_, localRule_puts, trivial⟩
  all_goals exact wordRule_puts _ (by decide)

theorem wordRules_puts : ∀ rule ∈ wordRules, Puts replacements rule := by
  have names : ∀ rule ∈ nameRules, Puts replacements rule := fun rule member =>
    (nameRules_puts rule member).mono (by decide)
  refine List.forall_mem_cons.mpr ⟨highImmediateRule_puts, List.forall_mem_cons.mpr ⟨?_,
    List.forall_mem_cons.mpr ⟨?_, List.forall_mem_cons.mpr ⟨addressRule_puts, names⟩⟩⟩⟩
  · exact closedLiteral_puts "IMM]" rfl (by decide) (by decide)
  · exact closedLiteral_puts "IMM(" rfl (by decide) (by decide)

/-- The characters that are taken out: each text that becomes a word has one of them, and no
word has any. Of a pair of spaces one is taken out. -/
def isTakenOut (c : Char) : Bool :=
  " xXtcyjlv".toList.contains c

theorem wordRules_lower : ∀ rule ∈ wordRules, Lowers isTakenOut rule := fun rule member =>
  (wordRules_puts rule member).lowers (by decide)

/-! ## Shapes -/

def closedShape (n : Nat) (close : Char) : Shape where
  front := (· == '0') :: (fun c => c == 'x' || c == 'X') :: List.replicate n isHexDigit
  run := (· == close)

def addressShape : Shape where
  front := Shape.exactly "0x" ++ List.replicate 2 isHexDigit
  run := isHexDigit

/-- A word and, before the end of its run, a character that is not spare. -/
def wordShape (word : String) (run spare : Char → Bool) : Shape where
  front := Shape.exactly word
  run := run
  spare := spare

def stringShape : Shape :=
  wordShape "str" (fun c => !isBlank c) (· == '!')

def nameShape (word : String) : Shape :=
  wordShape word (· != '\n') (fun c => c == '!' || isBlank c)

def objectShape : Shape :=
  wordShape "ob" (· == 'j') (fun _ => false)

def relocationShape : Shape :=
  wordShape "[reloc" (fun c => !isBlank c) (· != ']')

def localShape (n : Nat) : Shape where
  front := Shape.exactly "loc" ++ (· != '\n') :: (List.replicate n isLower ++ [(· != '\n')])
  run := isLowerOrLowLine

theorem closedShape_starts {n : Nat} {close : Char} (outside : isHexDigit close = false)
    {t : List Char} : (closedShape n close).starts t = true ↔
      ∃ rest, afterHexMark? t = some rest ∧ hexRun rest = n ∧
        (rest.drop n).head? = some close := by
  have digits (rest : List Char) :
      (closedShape n close).goesOn (List.replicate n isHexDigit) rest = true ↔
        hexRun rest = n ∧ (rest.drop n).head? = some close := by
    rw [← List.append_nil (List.replicate n isHexDigit), Shape.goesOn_replicate,
      Shape.goesOn_last rfl, Option.any_eq_true]
    constructor
    · rintro ⟨inside, c, here, same⟩
      obtain rfl := beq_iff_eq.mp same
      refine ⟨length_takeWhile_eq inside fun d member => ?_, here⟩
      rw [here] at member
      cases member
      exact outside
    · rintro ⟨length, here⟩
      exact ⟨length.ge, close, here, beq_self_eq_true close⟩
  simp only [afterHexMark?_eq_some]
  rcases t with _ | ⟨a, _ | ⟨b, rest⟩⟩
  · simp [Shape.starts, Shape.goesOn]
  · simp [Shape.starts, closedShape, Shape.goesOn]
  · have whole : (closedShape n close).starts (a :: b :: rest) =
        (a == '0' && ((b == 'x' || b == 'X') &&
          (closedShape n close).goesOn (List.replicate n isHexDigit) rest)) := rfl
    rw [whole, Bool.and_eq_true, Bool.and_eq_true, digits]
    grind

theorem closedLiteral_takes {most : Nat} {close : Char} (word : String)
    (outside : isHexDigit close = false) :
    Shape.Takes ((List.range' 1 most).map fun n => closedShape n close)
      (closedLiteral 1 (some most) close word) := by
  refine .of_isSome_iff fun t => ?_
  have found : (closedLiteral 1 (some most) close word t).isSome = true ↔
      ∃ rest, afterHexMark? t = some rest ∧ 1 ≤ hexRun rest ∧ hexRun rest ≤ most ∧
        (rest.drop (hexRun rest)).head? = some close := by
    unfold closedLiteral
    cases afterHexMark? t with
    | none => simp
    | some rest => simp [and_assoc]
  rw [found]
  constructor
  · rintro ⟨rest, marked, least, bound, here⟩
    have inside : hexRun rest ∈ List.range' 1 most :=
      List.mem_range'_1.mpr ⟨least, by omega⟩
    exact ⟨_, List.mem_map_of_mem inside,
      (closedShape_starts outside).mpr ⟨rest, marked, rfl, here⟩⟩
  · rintro ⟨shape, member, starts⟩
    obtain ⟨n, inside, rfl⟩ := List.mem_map.mp member
    obtain ⟨rest, marked, rfl, here⟩ := (closedShape_starts outside).mp starts
    have bounds := List.mem_range'_1.mp inside
    exact ⟨rest, marked, bounds.1, by omega, here⟩

theorem addressShape_starts {t : List Char} :
    addressShape.starts t = true ↔ ∃ rest, t = "0x".toList ++ rest ∧ 3 ≤ hexRun rest := by
  have digits (rest : List Char) :
      addressShape.goesOn (List.replicate 2 isHexDigit) rest = true ↔ 2 < hexRun rest :=
    Shape.goesOn_replicate_run rfl
  have front : addressShape.front = Shape.exactly "0x" ++ List.replicate 2 isHexDigit := rfl
  rw [Shape.starts, front, Shape.goesOn_exactly]
  simp only [digits, Nat.lt_iff_add_one_le]

theorem addressLength?_isSome {t : List Char} :
    (addressLength? t).isSome = true ↔ addressShape.starts t = true := by
  rw [addressShape_starts, Option.isSome_iff_exists]
  simp only [addressLength?_eq_some]
  exact ⟨fun ⟨_, rest, whole, long, _⟩ => ⟨rest, whole, long⟩,
    fun ⟨rest, whole, long⟩ => ⟨_, rest, whole, long, rfl⟩⟩

theorem highImmediateRule_only {t : List Char} (matched : (highImmediateRule t).isSome = true) :
    addressShape.starts t = true := by
  rw [highImmediateRule, Option.isSome_map] at matched
  unfold highDigits? at matched
  split at matched
  · rename_i rest marked
    rw [isPrefixOf?_eq_some.mp marked, addressShape_starts]
    refine ⟨"ffff".toList ++ rest, rfl, ?_⟩
    have digits : hexRun ("ffff".toList ++ rest) = hexRun rest + 4 := rfl
    omega
  · cases matched

theorem addressRule_takes : Shape.Takes [addressShape] addressRule := by
  constructor
  · intro t matched
    rw [addressRule, Option.isSome_map, Option.isSome_or, Bool.or_eq_true] at matched
    refine ⟨addressShape, List.mem_singleton_self _, fun absent => ?_⟩
    rcases matched with marked | plain
    · obtain ⟨n, found⟩ := Option.isSome_iff_exists.mp marked
      obtain ⟨mark, -, found⟩ := List.exists_of_findSome?_eq_some found
      split at found
      · rename_i rest front
        obtain ⟨k, length, -⟩ := Option.map_eq_some_iff.mp found
        obtain rfl := isPrefixOf?_eq_some.mp front
        have starts := addressLength?_isSome.mp (Option.isSome_iff_exists.mpr ⟨k, length⟩)
        exact Shape.not_absent_of_starts starts (absent.of_suffix (List.suffix_append mark rest))
      · cases found
    · exact Shape.not_absent_of_starts (addressLength?_isSome.mp plain) absent
  · intro shape member t starts
    obtain rfl := List.mem_singleton.mp member
    rw [addressRule, Option.isSome_map, Option.isSome_or, addressLength?_isSome.mpr starts,
      Bool.or_true]

/-! ### Words with a run behind them -/

theorem wordShape_starts {word : String} {run spare : Char → Bool} {t : List Char} :
    (wordShape word run spare).starts t = true ↔
      ∃ rest, t = word.toList ++ rest ∧
        (rest.takeWhile run).any (fun c => !spare c) = true := by
  have front : (wordShape word run spare).front = Shape.exactly word ++ [] :=
    (List.append_nil _).symm
  rw [Shape.starts, front, Shape.goesOn_exactly]
  simp only [Shape.goesOn_run]
  rfl

theorem wordRule_isSome {word replacement : String} {extent : List Char → List Char}
    {run spare : Char → Bool}
    (reaches : ∀ s, extent s ≠ [] ↔ (s.takeWhile run).any (fun c => !spare c) = true)
    {t : List Char} : (wordRule word extent replacement t).isSome = true ↔
      (wordShape word run spare).starts t = true := by
  rw [wordShape_starts, Option.isSome_iff_exists]
  simp only [Prod.exists, wordRule_eq_some, ← reaches]
  exact ⟨fun ⟨_, _, rest, whole, reached, _⟩ => ⟨rest, whole, reached⟩,
    fun ⟨rest, whole, reached⟩ => ⟨_, _, rest, whole, reached, rfl, rfl⟩⟩

theorem dropEnd_ne_nil {drop : Char → Bool} {s : List Char} :
    dropEnd drop s ≠ [] ↔ s.any (fun c => !drop c) = true := by
  simp [dropEnd, List.dropWhile_eq_nil_iff]

theorem wordRule_takes {word replacement : String} {extent : List Char → List Char}
    {run spare : Char → Bool}
    (reaches : ∀ s, extent s ≠ [] ↔ (s.takeWhile run).any (fun c => !spare c) = true) :
    Shape.Takes [wordShape word run spare] (wordRule word extent replacement) := by
  refine .of_isSome_iff fun t => ?_
  rw [wordRule_isSome reaches]
  simp

theorem stringRule_takes : Shape.Takes [stringShape] stringRule :=
  wordRule_takes fun _ => dropEnd_ne_nil

theorem relocationRule_takes : Shape.Takes [relocationShape] relocationRule :=
  wordRule_takes fun _ => dropEnd_ne_nil

theorem methodRule_takes : Shape.Takes [nameShape "method"] methodRule := by
  refine wordRule_takes fun s => ?_
  have same (c : Char) : (!(c == '!' || isBlank c)) = (c != '!' && !isBlank c) := Bool.not_or _ _
  simp only [same]
  change (if (lineRun s).any _ then lineRun s else []) ≠ [] ↔ (lineRun s).any _ = true
  split
  · rename_i reached
    refine iff_of_true (fun empty => ?_) reached
    rw [empty] at reached
    cases reached
  · rename_i missed
    exact iff_of_false (fun some => some rfl) missed

theorem functionRule_takes : Shape.Takes [nameShape "fcn", nameShape "sym"] functionRule := by
  refine .of_isSome_iff fun t => ?_
  have reaches (s : List Char) : solidLine s ≠ [] ↔ _ := dropEnd_ne_nil
  have named (word : String) :
      (wordRule word solidLine "FUNC" t).isSome = true ↔ (nameShape word).starts t = true :=
    wordRule_isSome reaches
  rw [functionRule, Option.isSome_or, Bool.or_eq_true, named, named]
  simp

theorem objectShape_starts (rest : List Char) : objectShape.starts ("obj".toList ++ rest) = true :=
  rfl

theorem objectRule_takes : Shape.Takes [objectShape] objectRule := by
  have ends : ∀ mark ∈ objectMarks, "obj".toList <:+ mark := by decide
  constructor
  · intro t matched
    obtain ⟨result, found⟩ := Option.isSome_iff_exists.mp matched
    obtain ⟨mark, member, found⟩ := List.exists_of_findSome?_eq_some found
    obtain ⟨rest, marked, -⟩ := Option.map_eq_some_iff.mp found
    obtain ⟨lead, rfl⟩ := ends mark member
    obtain rfl := isPrefixOf?_eq_some.mp marked
    refine ⟨objectShape, List.mem_singleton_self _, fun absent => ?_⟩
    rw [List.append_assoc] at absent
    exact Shape.not_absent_of_starts (objectShape_starts rest)
      (absent.of_suffix (List.suffix_append lead _))
  · intro shape member t starts
    obtain rfl := List.mem_singleton.mp member
    obtain ⟨rest, rfl, reached⟩ := wordShape_starts.mp starts
    cases rest with
    | nil => cases reached
    | cons c rest =>
        rw [List.takeWhile_cons] at reached
        split at reached
        · rename_i last
          obtain rfl := beq_iff_eq.mp last
          rw [objectRule, List.findSome?_isSome_iff]
          exact ⟨"obj".toList, by decide, by simp⟩
        · cases reached

/-! ### Local names -/

theorem isLower_lowLine {c : Char} (lower : isLower c = true) : isLowerOrLowLine c = true := by
  rw [isLowerOrLowLine, lower, Bool.true_or]

theorem isLower_ne {c : Char} (lower : isLower c = true) : (c != '\n') = true := by
  rw [bne_iff_ne]
  rintro rfl
  cases lower

/-- The classes of a local name behind its mark and one character of the line. -/
def localClasses (n : Nat) : List (Char → Bool) :=
  List.replicate n isLower ++ [(· != '\n')]

theorem localShape_end (n : Nat) (s : List Char) :
    (localShape n).goesOn [] s = true ↔ 1 ≤ (s.takeWhile isLowerOrLowLine).length :=
  Shape.goesOn_replicate_run (n := 0) rfl

theorem localNameLength?_isSome (s : List Char) :
    (localNameLength? s).isSome = true ↔
      (localShape 1).goesOn (localClasses 1) s = true ∨
      (localShape 2).goesOn (localClasses 2) s = true := by
  have one (a b : Char) (rest : List Char) :
      (localShape 1).goesOn (localClasses 1) (a :: b :: rest) = true ↔
        isLower a = true ∧ b ≠ '\n' ∧ 1 ≤ (rest.takeWhile isLowerOrLowLine).length := by
    simp [localClasses, Shape.goesOn, ← localShape_end 1]
  have two (a b c : Char) (rest : List Char) :
      (localShape 2).goesOn (localClasses 2) (a :: b :: c :: rest) = true ↔
        isLower a = true ∧ isLower b = true ∧ c ≠ '\n' ∧
          1 ≤ (rest.takeWhile isLowerOrLowLine).length := by
    simp [localClasses, Shape.goesOn, List.replicate_succ, ← localShape_end 2]
  rcases s with _ | ⟨a, _ | ⟨b, _ | ⟨c, rest⟩⟩⟩
  · simp [localNameLength?, Shape.goesOn]
  · cases la : isLower a <;>
      simp [localNameLength?, localClasses, Shape.goesOn, List.replicate_succ, la]
  · rw [one]
    cases la : isLower a <;> cases lb : isLower b <;>
      simp [localNameLength?, localClasses, Shape.goesOn, List.replicate_succ, la, lb]
  · rw [one, two]
    cases la : isLower a with
    | false => simp [localNameLength?, la]
    | true =>
        cases lb : isLower b with
        | false =>
            have letters : ((a :: b :: c :: rest).takeWhile isLower).length = 1 := by simp [la, lb]
            simp only [localNameLength?, letters, List.drop_succ_cons, List.drop_zero]
            grind
        | true =>
            have inLine := bne_iff_ne.mp (isLower_ne lb)
            cases lc : isLower c with
            | false =>
                have letters : ((a :: b :: c :: rest).takeWhile isLower).length = 2 := by
                  simp [la, lb, lc]
                simp only [localNameLength?, letters, List.drop_succ_cons, List.drop_zero]
                grind
            | true =>
                have letters : 3 ≤ ((a :: b :: c :: rest).takeWhile isLower).length := by
                  simp [la, lb, lc]
                have low := isLower_lowLine lc
                refine iff_of_true ?_ (.inl ⟨rfl, inLine, ?_⟩)
                · grind [localNameLength?]
                · simp [low]

theorem localShape_starts {n : Nat} {t : List Char} :
    (localShape n).starts t = true ↔ ∃ c rest, t = "loc".toList ++ c :: rest ∧
      (c != '\n') = true ∧ (localShape n).goesOn (localClasses n) rest = true := by
  have front : (localShape n).front = Shape.exactly "loc" ++ (· != '\n') :: localClasses n := rfl
  rw [Shape.starts, front, Shape.goesOn_exactly]
  constructor
  · rintro ⟨_ | ⟨c, rest⟩, whole, here⟩
    · cases here
    · rw [Shape.goesOn, Bool.and_eq_true] at here
      exact ⟨c, rest, whole, here⟩
  · rintro ⟨c, rest, whole, here⟩
    refine ⟨c :: rest, whole, ?_⟩
    rw [Shape.goesOn, Bool.and_eq_true]
    exact here

theorem localRule_isSome {t : List Char} : (localRule t).isSome = true ↔
    ∃ c rest, t = "loc".toList ++ c :: rest ∧ (c != '\n') = true ∧
      (localNameLength? rest).isSome = true := by
  simp only [← isPrefixOf?_eq_some]
  unfold localRule
  rcases "loc".toList.isPrefixOf? t with _ | _ | ⟨c, rest⟩
  · simp
  · simp
  · by_cases inLine : c = '\n' <;> simp [inLine]

theorem localRule_takes : Shape.Takes [localShape 1, localShape 2] localRule := by
  refine .of_isSome_iff fun t => ?_
  have parts : (localRule t).isSome = true ↔
      (localShape 1).starts t = true ∨ (localShape 2).starts t = true := by
    simp only [localRule_isSome, localNameLength?_isSome, localShape_starts]
    grind
  rw [parts]
  simp

/-! ### All rules -/

def literalShapes : List (List Shape) :=
  [(List.range' 1 3).map fun n => closedShape n ']',
    (List.range' 1 4).map fun n => closedShape n '(']

def nameShapes : List (List Shape) :=
  [[stringShape], [nameShape "method"], [nameShape "fcn", nameShape "sym"], [objectShape]]

def localShapes : List Shape :=
  [localShape 1, localShape 2]

/-- What the rules that put words in look for, but for the first rule. -/
def wordShapes : List (List Shape) :=
  literalShapes ++ [addressShape] :: (nameShapes ++ [[relocationShape], localShapes])

theorem wordRules_take : List.Forall₂ Shape.Takes wordShapes wordRules.tail :=
  .cons (closedLiteral_takes "IMM" (by decide)) <| .cons (closedLiteral_takes "IMM" (by decide)) <|
    .cons addressRule_takes <| .cons stringRule_takes <| .cons methodRule_takes <|
    .cons functionRule_takes <| .cons objectRule_takes <| .cons relocationRule_takes <|
    .cons localRule_takes .nil

/-- What the first rule takes is an address as well. -/
theorem wordRules_unmatched_iff {s : List Char} :
    (∀ rule ∈ wordRules, ∀ t, t <:+ s → rule t = none) ↔
      ∀ shapes ∈ wordShapes, ∀ shape ∈ shapes, shape.Absent s := by
  rw [← Shape.unmatched_iff wordRules_take]
  refine ⟨fun all rule member => all rule (List.mem_of_mem_tail member), fun rest => ?_⟩
  refine List.forall_mem_cons.mpr ⟨fun t behind => ?_, rest⟩
  have absent : addressShape.Absent s :=
    (Shape.unmatched_iff wordRules_take).mp rest [addressShape] (by simp [wordShapes]) addressShape
      (List.mem_singleton_self addressShape)
  rw [← Option.not_isSome_iff_eq_none]
  intro matched
  exact Shape.not_absent_of_starts (highImmediateRule_only matched) (absent.of_suffix behind)

end FlowCorpus.Assembly
