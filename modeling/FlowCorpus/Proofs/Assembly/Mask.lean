import FlowCorpus.Assembly.Disassembly
import FlowCorpus.Proofs.Assembly.Register
import FlowCorpus.Proofs.Text.Shape

/-!
# Lines with masks

The registers of a line become masks, and one space is left between its tokens. A name is masked
only behind a space, a star or an opening bracket, so that a mask goes on with nothing that stands
before it.
-/

set_option autoImplicit false

namespace FlowCorpus.Assembly

open FlowCorpus.Text

def maskLine (s : List Char) : List Char :=
  join [' '] ((tokens ' ' s).map maskToken)

def masks : List String :=
  ["fp", "reg32", "reg64"]

def boundaries : List Char :=
  [' ', '*', '[']

/-! ## What a mask replaces -/

theorem registerMask?_eq_some {name : List Char} {mask : String}
    (found : registerMask? (String.ofList name) = some mask) :
    String.ofList name ∈ registerNames ∧ mask ∈ masks := by
  unfold registerMask? at found
  split at found
  · rename_i narrow
    cases found
    exact ⟨registers32_subset (List.contains_iff_mem.mp narrow), by decide⟩
  · split at found
    · rename_i wide
      cases found
      exact ⟨registers64_subset (List.contains_iff_mem.mp wide), by decide⟩
    · cases found

theorem maskFactor_cases (factor : List Char) :
    String.ofList factor ∈ registerNames ∧ maskFactor factor = "reg64".toList ∨
      maskFactor factor = factor := by
  unfold maskFactor
  split
  · rename_i wide
    exact .inl ⟨registers64_subset (List.contains_iff_mem.mp wide), rfl⟩
  · exact .inr rfl

def closing (rest : List Char) : List Char :=
  if (bracketed rest).2 then [']'] else []

theorem bracketed_append (rest : List Char) : (bracketed rest).1 ++ closing rest = rest := by
  unfold closing bracketed
  split
  · rename_i inner shape
    have whole := List.reverse_eq_iff.mp shape
    rw [List.reverse_cons] at whole
    exact whole.symm
  · exact List.append_nil rest

theorem closing_mem (rest : List Char) : closing rest ∈ [[], [']']] := by
  unfold closing
  split <;> decide

def IsProduct (token : List Char) : Prop :=
  '*' ∈ token ∧ token.head? ≠ some '['

theorem registerMask?_of_not_mem {name : List Char} (none : String.ofList name ∉ registerNames) :
    registerMask? (String.ofList name) = .none := by
  unfold registerMask?
  rw [contains_eq_false registers32_subset none, contains_eq_false registers64_subset none]
  rfl

theorem maskToken_bracket (rest : List Char) :
    maskToken ('[' :: rest) =
      ((registerMask? (String.ofList (bracketed rest).1)).map fun mask =>
        '[' :: (mask.toList ++ closing rest)).getD ('[' :: rest) := by
  have noName : String.ofList ('[' :: rest) ∉ registerNames :=
    not_mem_of_not_plain List.mem_cons_self (by decide)
  unfold maskToken
  rw [contains_eq_false framePointers_subset noName, registerMask?_of_not_mem noName]
  simp only [if_neg Bool.false_ne_true]
  cases registerMask? (String.ofList (bracketed rest).1) <;> rfl

theorem maskToken_unbracketed {token : List Char}
    (noFrame : framePointers.contains (String.ofList token) = false)
    (noMask : registerMask? (String.ofList token) = none) (noBracket : token.head? ≠ some '[') :
    maskToken token =
      if token.contains '*' then join ['*'] ((split '*' token).map maskFactor) else token := by
  unfold maskToken
  rw [noFrame, noMask]
  cases token with
  | nil => rfl
  | cons c rest =>
      have other : c ≠ '[' := fun same => noBracket (congrArg some same)
      simp [other]

theorem maskToken_product {token : List Char} (product : IsProduct token) :
    maskToken token = join ['*'] ((split '*' token).map maskFactor) := by
  have noName : String.ofList token ∉ registerNames := not_mem_of_not_plain product.1 (by decide)
  rw [maskToken_unbracketed (contains_eq_false framePointers_subset noName)
    (registerMask?_of_not_mem noName) product.2, if_pos (List.contains_iff_mem.mpr product.1)]

/-- Everything that can become of a token. -/
theorem maskToken_cases (token : List Char) :
    (∃ mask ∈ masks, String.ofList token ∈ registerNames ∧ maskToken token = mask.toList) ∨
    (∃ name, ∃ mask ∈ masks, ∃ last ∈ [[], [']']], String.ofList name ∈ registerNames ∧
      token = '[' :: (name ++ last) ∧ maskToken token = '[' :: (mask.toList ++ last)) ∨
    IsProduct token ∨ maskToken token = token := by
  by_cases frame : framePointers.contains (String.ofList token) = true
  · refine .inl ⟨"fp", by decide, framePointers_subset (List.contains_iff_mem.mp frame), ?_⟩
    unfold maskToken
    rw [if_pos frame]
  cases found : registerMask? (String.ofList token) with
  | some mask =>
      obtain ⟨name, known⟩ := registerMask?_eq_some found
      refine .inl ⟨mask, known, name, ?_⟩
      unfold maskToken
      rw [if_neg frame, found]
  | none =>
      refine .inr ?_
      by_cases bracket : token.head? = some '['
      · obtain ⟨rest, rfl⟩ := List.head?_eq_some_iff.mp bracket
        rw [maskToken_bracket]
        cases inside : registerMask? (String.ofList (bracketed rest).1) with
        | none => exact .inr (.inr rfl)
        | some mask =>
            obtain ⟨name, known⟩ := registerMask?_eq_some inside
            exact .inl ⟨_, mask, known, closing rest, closing_mem rest, name,
              congrArg _ (bracketed_append rest).symm, rfl⟩
      · rw [maskToken_unbracketed (Bool.eq_false_iff.mpr frame) found bracket]
        split
        · rename_i star
          exact .inr (.inl ⟨List.contains_iff_mem.mp star, bracket⟩)
        · exact .inr (.inr rfl)

/-! ## Texts that differ in masks -/

/-- The first text is the second one with masks in the place of names, and without some of the
spaces that another space, or nothing, follows. -/
inductive Masked : List Char → List Char → Prop where
  | nil : Masked [] []
  | keep (c : Char) {t s : List Char} : Masked t s → Masked (c :: t) (c :: s)
  | skip {t s : List Char} : (∀ c ∈ t.head?, c = ' ') → Masked t s → Masked t (' ' :: s)
  | mask {t s name : List Char} {boundary : Char} {mask : String} : boundary ∈ boundaries →
      String.ofList name ∈ registerNames → mask ∈ masks → Masked t s →
      Masked (boundary :: (mask.toList ++ t)) (boundary :: (name ++ s))

variable {t s : List Char}

theorem Masked.append (masked : Masked t s) (front : List Char) :
    Masked (front ++ t) (front ++ s) := by
  induction front with
  | nil => exact masked
  | cons c rest ih => exact ih.keep c

theorem masked_factor (masked : Masked t s) {boundary : Char} (known : boundary ∈ boundaries)
    (factor : List Char) :
    Masked (boundary :: (maskFactor factor ++ t)) (boundary :: (factor ++ s)) := by
  rcases maskFactor_cases factor with ⟨name, same⟩ | same
  · rw [same]
    exact .mask known name (by decide) masked
  · rw [same]
    exact (masked.append factor).keep boundary

theorem masked_factors (masked : Masked t s) {boundary : Char} (known : boundary ∈ boundaries)
    (factors : List (List Char)) :
    Masked (boundary :: (join ['*'] (factors.map maskFactor) ++ t))
      (boundary :: (join ['*'] factors ++ s)) := by
  induction factors generalizing boundary with
  | nil => exact masked.keep boundary
  | cons factor rest ih =>
      cases rest with
      | nil =>
          rw [List.map_singleton, join_singleton, join_singleton]
          exact masked_factor masked known factor
      | cons next more =>
          have others := ih (show '*' ∈ boundaries by decide)
          simp only [List.map_cons, join_cons_cons, List.append_assoc, List.singleton_append]
            at others ⊢
          exact masked_factor others known factor

theorem masked_token (masked : Masked t s) (token : List Char) :
    Masked (' ' :: (maskToken token ++ t)) (' ' :: (token ++ s)) := by
  rcases maskToken_cases token with
    ⟨mask, known, name, same⟩ | ⟨name, mask, known, last, -, register, whole, same⟩ |
    product | same
  · rw [same]
    exact .mask (by decide) name known masked
  · rw [same, whole, List.cons_append, List.cons_append, List.append_assoc, List.append_assoc]
    exact .keep ' ' (.mask (by decide) register known (masked.append last))
  · rw [maskToken_product product]
    have factors := masked_factors masked (show ' ' ∈ boundaries by decide) (split '*' token)
    rwa [join_split] at factors
  · rw [same]
    exact (masked.append token).keep ' '

theorem tokens_of_not_mem {token : List Char} (plain : ' ' ∉ token) (some : token ≠ []) :
    tokens ' ' token = [token] :=
  filter_split_of_not_mem plain some

theorem tokens_append {token : List Char} (plain : ' ' ∉ token) (some : token ≠ [])
    (rest : List Char) : tokens ' ' (token ++ ' ' :: rest) = token :: tokens ' ' rest := by
  rw [tokens, split_append plain, List.filter_cons_of_pos (by simp [some])]
  rfl

def spaced (s : List Char) : List Char :=
  ((tokens ' ' s).map maskToken).flatMap (' ' :: ·)

theorem head?_spaced (s : List Char) : ∀ c ∈ (spaced s).head?, c = ' ' := by
  unfold spaced
  cases tokens ' ' s with
  | nil => simp
  | cons token rest => simp

theorem masked_spaced (s : List Char) : Masked (spaced s) (' ' :: s) := by
  induction s using splitInduction ' ' with
  | last s plain =>
      by_cases empty : s = []
      · rw [empty]
        exact .skip (head?_spaced []) .nil
      · have token := masked_token .nil s
        rw [List.append_nil, List.append_nil] at token
        rw [spaced, tokens_of_not_mem plain empty, List.map_singleton, List.flatMap_singleton]
        exact token
  | more piece rest plain ih =>
      by_cases empty : piece = []
      · rw [empty]
        exact .skip (head?_spaced rest) ih
      · rw [spaced, tokens_append plain empty]
        exact masked_token ih piece

theorem maskLine_eq (s : List Char) : maskLine s = [] ∨ ' ' :: maskLine s = spaced s := by
  unfold maskLine spaced
  by_cases none : (tokens ' ' s).map maskToken = []
  · rw [none]
    exact .inl rfl
  · exact .inr (flatMap_separator none).symm

theorem maskLine_suffix (s : List Char) : maskLine s <:+ spaced s := by
  rcases maskLine_eq s with empty | whole
  · rw [empty]
    exact List.nil_suffix
  · rw [← whole]
    exact List.suffix_cons _ _

/-! ## What masks keep -/

theorem Masked.countP_le {p : Char → Bool} (none : ∀ mask ∈ masks, mask.toList.countP p = 0)
    (masked : Masked t s) : t.countP p ≤ s.countP p := by
  induction masked with
  | nil => exact Nat.le_refl _
  | keep c _ ih =>
      rw [List.countP_cons, List.countP_cons]
      exact Nat.add_le_add_right ih _
  | skip _ _ ih => exact Nat.le_trans ih (List.sublist_cons_self _ _).countP_le
  | mask _ _ known _ ih =>
      rw [List.countP_cons, List.countP_cons, List.countP_append, List.countP_append, none _ known,
        Nat.zero_add]
      exact Nat.add_le_add_right (Nat.le_trans ih (Nat.le_add_left _ _)) _

theorem countP_maskLine_le {p : Char → Bool}
    (none : ∀ mask ∈ masks, mask.toList.countP p = 0) (s : List Char) :
    (maskLine s).countP p ≤ s.countP p := by
  rcases maskLine_eq s with empty | whole
  · rw [empty]
    exact Nat.zero_le _
  · have spaces := (masked_spaced s).countP_le none
    rw [← whole, List.countP_cons, List.countP_cons] at spaces
    exact Nat.le_of_add_le_add_right spaces

def initials : List Char :=
  "aerstvwx".toList

theorem exists_initial {name : List Char} (register : String.ofList name ∈ registerNames) :
    ∃ c more, name = c :: more ∧ c ∈ initials := by
  have every : registerNames.all (·.toList.head?.any initials.contains) = true := by
    decide +kernel
  have begins := List.all_eq_true.mp every _ register
  rw [String.toList_ofList] at begins
  obtain ⟨c, first, known⟩ := (Option.any_eq_true _ _).mp begins
  obtain ⟨more, whole⟩ := List.head?_eq_some_iff.mp first
  exact ⟨c, more, whole, List.contains_iff_mem.mp known⟩

/-- A boundary and the first character of a name, and what a mask makes of them. -/
def maskings : List (List Char × List Char) :=
  boundaries.flatMap fun boundary => initials.flatMap fun c =>
    masks.map fun mask => ([boundary, c], boundary :: mask.toList)

theorem mem_maskings {boundary c : Char} {mask : String} (known : boundary ∈ boundaries)
    (initial : c ∈ initials) (member : mask ∈ masks) :
    ([boundary, c], boundary :: mask.toList) ∈ maskings :=
  List.mem_flatMap.mpr ⟨boundary, known, List.mem_flatMap.mpr ⟨c, initial,
    List.mem_map_of_mem member⟩⟩

def keptByMasks (shape : Shape) : Bool :=
  shape.breaksOff shape.front [' '] && shape.front.all (fun inClass => !inClass ' ') &&
  maskings.all fun pair => shape.keeps pair.1 pair.2

variable {shape : Shape}

theorem Masked.within (kept : keptByMasks shape = true) (masked : Masked t s) :
    Shape.Within shape t s := by
  simp only [keptByMasks, Bool.and_eq_true, List.all_eq_true, Bool.not_eq_true'] at kept
  obtain ⟨⟨-, apart⟩, keeps⟩ := kept
  induction masked with
  | nil => exact .refl []
  | keep c _ ih => exact ih.cons c
  | skip next _ ih => exact ih.skip next apart
  | mask known register member _ ih =>
      obtain ⟨c, more, rfl, initial⟩ := exists_initial register
      exact ih.replace (keeps _ (mem_maskings known initial member)) more

theorem absent_maskLine (kept : keptByMasks shape = true) {s : List Char}
    (absent : shape.Absent s) : shape.Absent (maskLine s) := by
  have first : shape.starts (' ' :: s) = false := by
    simp only [keptByMasks, Bool.and_eq_true] at kept
    exact Shape.goesOn_of_breaksOff kept.1.1 s
  have within := (masked_spaced s).within kept
  exact (within.absent (Shape.absent_cons.mpr ⟨first, absent⟩)).of_suffix (maskLine_suffix s)

/-! ## A second time -/

theorem maskFactor_maskFactor (factor : List Char) :
    maskFactor (maskFactor factor) = maskFactor factor := by
  rcases maskFactor_cases factor with ⟨-, same⟩ | same
  · rw [same]
    decide +kernel
  · rw [same, same]

theorem not_mem_maskFactor {c : Char} (other : c ∉ "reg64".toList) {factor : List Char}
    (plain : c ∉ factor) : c ∉ maskFactor factor := by
  rcases maskFactor_cases factor with ⟨-, same⟩ | same
  · rwa [same]
  · rwa [same]

theorem isProduct_maskToken {token : List Char} (product : IsProduct token) :
    IsProduct (maskToken token) := by
  obtain ⟨factor, rest, rfl, plain⟩ := List.eq_append_cons_of_mem product.1
  have more : (split '*' rest).map maskFactor ≠ [] := by simp [split_ne_nil]
  rw [maskToken_product product, split_append plain, List.map_cons, join_cons_of_ne_nil more]
  refine ⟨by simp, ?_⟩
  rcases maskFactor_cases factor with ⟨-, same⟩ | same
  · rw [same]
    exact fun first => absurd (Option.some.inj first) (by decide)
  · rw [same]
    cases factor with
    | nil => exact product.2
    | cons c inner => exact product.2

theorem split_maskToken {token : List Char} (product : IsProduct token) :
    split '*' (maskToken token) = (split '*' token).map maskFactor := by
  rw [maskToken_product product]
  refine split_join (by simp [split_ne_nil]) fun piece member => ?_
  obtain ⟨factor, found, rfl⟩ := List.mem_map.mp member
  exact not_mem_maskFactor (by decide) (not_mem_of_mem_split found)

theorem maskToken_maskToken (token : List Char) :
    maskToken (maskToken token) = maskToken token := by
  rcases maskToken_cases token with
    ⟨mask, known, -, same⟩ | ⟨-, mask, known, last, closes, -, -, same⟩ | product | same
  · have every : ∀ mask ∈ masks, maskToken mask.toList = mask.toList := by decide +kernel
    rw [same, every mask known]
  · have every : ∀ mask ∈ masks, ∀ last ∈ [[], [']']],
        maskToken ('[' :: (mask.toList ++ last)) = '[' :: (mask.toList ++ last) := by
      decide +kernel
    rw [same, every mask known last closes]
  · have factors : (maskFactor ∘ maskFactor) = maskFactor := funext maskFactor_maskFactor
    rw [maskToken_product (isProduct_maskToken product), split_maskToken product, List.map_map,
      factors, maskToken_product product]
  · rw [same, same]

def IsToken (token : List Char) : Prop :=
  token ≠ [] ∧ ' ' ∉ token

theorem isToken_of_mem {token s : List Char} (member : token ∈ tokens ' ' s) : IsToken token := by
  obtain ⟨piece, some⟩ := List.mem_filter.mp member
  exact ⟨by simpa using some, not_mem_of_mem_split piece⟩

theorem IsToken.maskToken {token : List Char} (isToken : IsToken token) :
    IsToken (maskToken token) := by
  constructor
  · rcases maskToken_cases token with
      ⟨mask, known, -, same⟩ | ⟨-, mask, -, last, -, -, -, same⟩ | product | same
    · have every : ∀ mask ∈ masks, mask.toList ≠ [] := by decide
      rw [same]
      exact every mask known
    · rw [same]
      exact List.cons_ne_nil _ _
    · exact List.ne_nil_of_mem (isProduct_maskToken product).1
    · rw [same]
      exact isToken.1
  · have spaces := (masked_token .nil token).countP_le (p := (· == ' ')) (by decide)
    rw [List.append_nil, List.append_nil, List.countP_cons, List.countP_cons] at spaces
    have none : token.countP (· == ' ') = 0 := List.count_eq_zero_of_not_mem isToken.2
    refine List.count_eq_zero.mp ?_
    change (Assembly.maskToken token).countP (· == ' ') = 0
    omega

theorem tokens_join {ts : List (List Char)} (proper : ∀ token ∈ ts, IsToken token) :
    tokens ' ' (join [' '] ts) = ts := by
  by_cases none : ts = []
  · rw [none]
    rfl
  · rw [tokens, split_join none fun token member => (proper token member).2, List.filter_eq_self]
    exact fun token member => by simpa using (proper token member).1

theorem tokens_maskLine (s : List Char) :
    tokens ' ' (maskLine s) = (tokens ' ' s).map maskToken := by
  refine tokens_join fun masked member => ?_
  obtain ⟨token, found, rfl⟩ := List.mem_map.mp member
  exact (isToken_of_mem found).maskToken

theorem maskLine_maskLine (s : List Char) : maskLine (maskLine s) = maskLine s := by
  have twice : (maskToken ∘ maskToken) = maskToken := funext maskToken_maskToken
  conv_lhs => rw [maskLine, tokens_maskLine, List.map_map, twice]
  rfl

end FlowCorpus.Assembly
