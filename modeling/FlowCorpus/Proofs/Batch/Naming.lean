import FlowCorpus.Proofs.Batch.Generators
import FlowCorpus.Proofs.Storage.Listing

/-!
# Output names apart

Which names share an output. The outputs for two input files are apart exactly when the stems of
the files differ. The outputs for two functions are apart unless both names are cut to the same
text, or are the same path in different words.
-/

set_option autoImplicit false

namespace FlowCorpus.Batch

open FlowCorpus.Feature FlowCorpus.Storage FlowCorpus.Text

/-! ## Names that are cut -/

def IsCut (name : String) : Prop :=
  nameLengthLimit < name.length ∨ name.length = cutNameLength

theorem safeName_of_isCut {name : String} (cut : IsCut name) :
    safeName name = String.ofList (name.toList.take cutNameLength) := by
  unfold safeName
  rcases cut with long | same
  · rw [if_pos long]
  · have short : ¬ nameLengthLimit < name.length := by
      rw [same]
      decide
    have whole : name.toList.take cutNameLength = name.toList :=
      List.take_of_length_le (by rw [String.length_toList, same])
    rw [if_neg short, whole, String.ofList_toList]

theorem length_safeName_of_isCut {name : String} (cut : IsCut name) :
    (safeName name).length = cutNameLength := by
  rw [safeName_of_isCut cut, String.length_ofList, List.length_take, String.length_toList]
  have order : cutNameLength ≤ nameLengthLimit := by decide
  rcases cut with long | same <;> omega

theorem safeName_of_not_isCut {name : String} (whole : ¬ IsCut name) : safeName name = name :=
  if_neg fun long => whole (.inl long)

/-- Two names are the same in a file name: they are the same, or both are cut to one text. -/
def Indistinct (f g : String) : Prop :=
  f = g ∨ f.toList.take cutNameLength = g.toList.take cutNameLength ∧ IsCut f ∧ IsCut g

theorem safeName_eq_iff {f g : String} : safeName f = safeName g ↔ Indistinct f g := by
  constructor
  · intro same
    by_cases first : IsCut f
    · by_cases second : IsCut g
      · rw [safeName_of_isCut first, safeName_of_isCut second, String.ofList_inj] at same
        exact .inr ⟨same, first, second⟩
      · -- What is left of a cut name is as long as the other one, which then counts as cut.
        have size := length_safeName_of_isCut first
        rw [same, safeName_of_not_isCut second] at size
        exact absurd (.inr size) second
    · by_cases second : IsCut g
      · have size := length_safeName_of_isCut second
        rw [← same, safeName_of_not_isCut first] at size
        exact absurd (.inr size) first
      · rw [safeName_of_not_isCut first, safeName_of_not_isCut second] at same
        exact .inl same
  · rintro (rfl | ⟨same, first, second⟩)
    · rfl
    · rw [safeName_of_isCut first, safeName_of_isCut second, same]

theorem safeName_plain {name : String} (plain : '/' ∉ name.toList) :
    '/' ∉ (safeName name).toList := by
  unfold safeName
  split
  · rw [String.toList_ofList]
    exact fun member => plain (List.mem_of_mem_take member)
  · exact plain

/-! ## Texts that are names -/

theorem isName_of_mem {s : String} {c : Char} (member : c ∈ s.toList) (noDot : c ≠ '.')
    (plain : '/' ∉ s.toList) : IsName s where
  nonempty := by
    rintro rfl
    cases member
  noDot := by
    rintro rfl
    exact noDot (List.mem_singleton.mp member)
  noDoubleDot := by
    rintro rfl
    simp [noDot] at member
  noSlash := plain

def isEnding (ending : String) : Bool :=
  ending.toList.any (· != '.') && !ending.toList.contains '/'

theorem isName_ended {s ending : String} (plain : '/' ∉ s.toList) (fits : isEnding ending) :
    IsName (s ++ ending) := by
  unfold isEnding at fits
  rw [Bool.and_eq_true, List.any_eq_true] at fits
  obtain ⟨⟨c, member, other⟩, slashless⟩ := fits
  refine isName_of_mem (c := c) ?_ (by simpa using other) ?_
  · rw [String.toList_append]
    exact List.mem_append_right _ member
  · rw [String.toList_append, List.mem_append, not_or]
    exact ⟨plain, by simpa using slashless⟩

theorem destination_below {name : String} (isName : IsName name) (tree : Tree) (base : Path) :
    tree.destination (base.below name) = tree.destination base ++ [name] := by
  rw [isName.below]
  refine (Tree.descend_append _ _ _).trans ?_
  exact Tree.next_of_ne isName.noDoubleDot _

/-! ## The parts of a name between slashes -/

section

variable {α : Type}

def onFirst (g : α → α) : List α → List α
  | [] => []
  | a :: rest => g a :: rest

def onLast (g : α → α) : List α → List α
  | [] => []
  | [a] => [g a]
  | a :: b :: rest => a :: onLast g (b :: rest)

theorem onLast_cons (g : α → α) (a : α) {rest : List α} (more : rest ≠ []) :
    onLast g (a :: rest) = a :: onLast g rest := by
  cases rest with
  | nil => exact absurd rfl more
  | cons b others => rfl

theorem onFirst_injective {g : α → α} (injective : Function.Injective g) :
    Function.Injective (onFirst g) := by
  intro as bs same
  cases as <;> cases bs <;> simp_all [onFirst, injective.eq_iff]

theorem onLast_ne_nil {g : α → α} {as : List α} (some : as ≠ []) : onLast g as ≠ [] := by
  cases as with
  | nil => exact absurd rfl some
  | cons a rest => cases rest <;> exact List.cons_ne_nil _ _

theorem dropLast_onLast (g : α → α) (as : List α) : (onLast g as).dropLast = as.dropLast := by
  fun_induction onLast g as with
  | case1 => rfl
  | case2 a => rfl
  | case3 a b rest ih =>
      rw [List.dropLast_cons_of_ne_nil (onLast_ne_nil (List.cons_ne_nil b rest)), ih,
        List.dropLast_cons_cons]

theorem map_onLast {β : Type} {g : α → α} {h : β → β} {f : α → β} (same : ∀ a, f (g a) = h (f a))
    (as : List α) : (onLast g as).map f = onLast h (as.map f) := by
  fun_induction onLast g as with
  | case1 => rfl
  | case2 a => rw [List.map_singleton, same]; rfl
  | case3 a b rest ih => rw [List.map_cons, ih]; rfl

theorem onLast_injective {g : α → α} (injective : Function.Injective g) :
    Function.Injective (onLast g) := by
  intro as
  induction as with
  | nil =>
      intro bs same
      by_contra other
      exact onLast_ne_nil (Ne.symm other) same.symm
  | cons a rest ih =>
      intro bs same
      cases bs with
      | nil => exact absurd same (onLast_ne_nil (List.cons_ne_nil _ _))
      | cons b others =>
          by_cases one : rest = []
          · by_cases single : others = []
            · subst one single
              rw [injective (List.cons.inj same).1]
            · subst one
              rw [onLast_cons g b single] at same
              exact absurd (List.cons.inj same).2.symm (onLast_ne_nil single)
          · by_cases single : others = []
            · subst single
              rw [onLast_cons g a one] at same
              exact absurd (List.cons.inj same).2 (onLast_ne_nil one)
            · rw [onLast_cons g a one, onLast_cons g b single] at same
              obtain ⟨first, last⟩ := List.cons.inj same
              rw [first, ih last]

end

theorem split_cons_of_ne {separator c : Char} (other : c ≠ separator) (s : List Char) :
    split separator (c :: s) = onFirst (c :: ·) (split separator s) := by
  rw [split, if_neg other]
  cases pieces : split separator s with
  | nil => exact absurd pieces (split_ne_nil separator s)
  | cons piece rest => rfl

/-- An ending without separators goes to the last piece of the text before it. -/
theorem split_append_plain {separator : Char} {ending : List Char} (plain : separator ∉ ending)
    (s : List Char) : split separator (s ++ ending) = onLast (· ++ ending) (split separator s) := by
  induction s with
  | nil => exact split_of_not_mem plain
  | cons c rest ih =>
      rw [List.cons_append]
      by_cases same : c = separator
      · rw [split, split, if_pos same, if_pos same, ih, onLast_cons _ _ (split_ne_nil _ _)]
      · rw [split_cons_of_ne same, split_cons_of_ne same, ih]
        rcases split separator rest with _ | ⟨piece, _ | ⟨next, others⟩⟩ <;> rfl

/-- What comes before a dash goes to pieces of its own and to the first piece behind the dash. -/
theorem split_dashed (front : List Char) :
    ∃ before piece, ∀ s, split '/' (front ++ '-' :: s) =
      before ++ onFirst (piece ++ '-' :: ·) (split '/' s) := by
  induction front with
  | nil => exact ⟨[], [], fun s => split_cons_of_ne (by decide) s⟩
  | cons c rest ih =>
      obtain ⟨before, piece, cut⟩ := ih
      by_cases slash : c = '/'
      · refine ⟨[] :: before, piece, fun s => ?_⟩
        rw [List.cons_append, split, if_pos slash, cut, List.cons_append]
      · cases before with
        | nil =>
            refine ⟨[], c :: piece, fun s => ?_⟩
            rw [List.cons_append, split_cons_of_ne slash, cut]
            cases split '/' s <;> rfl
        | cons first others =>
            refine ⟨(c :: first) :: others, piece, fun s => ?_⟩
            rw [List.cons_append, split_cons_of_ne slash, cut]
            rfl

/-- A piece that means nothing in a path. -/
def IsVoid (piece : List Char) : Prop :=
  piece = [] ∨ piece = ['.']

instance : DecidablePred IsVoid := fun piece =>
  inferInstanceAs (Decidable (piece = [] ∨ piece = ['.']))

def innerParts : List (List Char) → List (List Char)
  | [] => []
  | [last] => [last]
  | piece :: next :: rest =>
    if IsVoid piece then innerParts (next :: rest) else piece :: innerParts (next :: rest)

theorem namesOf_eq (s : List Char) :
    Path.namesOf s = ((split '/' s).filter fun piece => !decide (IsVoid piece)).map
      String.ofList := by
  unfold Path.namesOf
  rw [List.filter_map]
  refine congrArg _ (List.filter_congr fun piece _ => ?_)
  have same (other : List Char) : String.ofList piece = String.ofList other ↔ piece = other :=
    String.ofList_inj
  have empty : String.ofList piece = "" ↔ piece = [] := same []
  have dot : String.ofList piece = "." ↔ piece = ['.'] := same ['.']
  by_cases void : IsVoid piece
  · rcases void with none | single
    · simp [IsVoid, none]
    · simp [IsVoid, single]
  · obtain ⟨some, other⟩ := not_or.mp void
    simp [void, empty, dot, some, other]

theorem innerParts_ne_nil {pieces : List (List Char)} (some : pieces ≠ []) :
    innerParts pieces ≠ [] := by
  fun_induction innerParts pieces with
  | case1 => exact some
  | case2 last => exact List.cons_ne_nil _ _
  | case3 piece next rest void ih => exact ih (List.cons_ne_nil _ _)
  | case4 piece next rest kept ih => exact List.cons_ne_nil _ _

/-- An ending that means something makes the last piece mean something. -/
theorem filter_onLast {ending : List Char} (fits : ∀ piece, ¬ IsVoid (piece ++ ending))
    (pieces : List (List Char)) :
    (onLast (· ++ ending) pieces).filter (fun piece => !decide (IsVoid piece)) =
      onLast (· ++ ending) (innerParts pieces) := by
  fun_induction innerParts pieces with
  | case1 => rfl
  | case2 last => simp [onLast, fits]
  | case3 piece next rest void ih =>
      rw [onLast_cons _ _ (List.cons_ne_nil _ _), List.filter_cons_of_neg (by simpa using void), ih]
  | case4 piece next rest kept ih =>
      have more := innerParts_ne_nil (List.cons_ne_nil next rest)
      rw [onLast_cons _ _ (List.cons_ne_nil _ _), List.filter_cons_of_pos (by simpa using kept), ih,
        onLast_cons _ _ more]

/-- The parts of a name behind a dash: the first piece, and of the others those that mean something
and the last one. -/
def dashedParts (s : List Char) : List (List Char) :=
  match split '/' s with
  | [] => []
  | first :: rest => first :: innerParts rest

def leadingParts (s : List Char) : List (List Char) :=
  innerParts (split '/' s)

/-- An ending that means something and does not go on in another piece. -/
structure Ends (ending : List Char) : Prop where
  plain : '/' ∉ ending
  fits : ∀ piece, ¬ IsVoid (piece ++ ending)

theorem ends_of_mem {ending : List Char} {c : Char} (member : c ∈ ending) (noDot : c ≠ '.')
    (plain : '/' ∉ ending) : Ends ending where
  plain := plain
  fits piece void := by
    have inside : c ∈ piece ++ ending := List.mem_append_right piece member
    rcases void with none | single
    · rw [none] at inside
      cases inside
    · rw [single, List.mem_singleton] at inside
      exact noDot inside

variable {ending : List Char}

theorem namesOf_leading_iff (ends : Ends ending) (s t : List Char) :
    Path.namesOf (s ++ ending) = Path.namesOf (t ++ ending) ↔ leadingParts s = leadingParts t := by
  have names (s : List Char) : Path.namesOf (s ++ ending) =
      (onLast (· ++ ending) (leadingParts s)).map String.ofList := by
    rw [namesOf_eq, split_append_plain ends.plain, filter_onLast ends.fits]
    rfl
  have texts : Function.Injective (List.map String.ofList) :=
    List.map_injective_iff.mpr fun _ _ => String.ofList_inj.mp
  rw [names, names, texts.eq_iff,
    (onLast_injective (List.append_left_injective ending)).eq_iff]

theorem namesOf_dashed_iff (ends : Ends ending) (front s t : List Char) :
    Path.namesOf (front ++ '-' :: (s ++ ending)) = Path.namesOf (front ++ '-' :: (t ++ ending)) ↔
      dashedParts s = dashedParts t := by
  obtain ⟨before, piece, cut⟩ := split_dashed front
  have some (first : List Char) : ¬ IsVoid (piece ++ '-' :: first) := by
    rintro (none | single) <;> simp [List.append_eq_cons_iff] at *
  have names (s : List Char) : Path.namesOf (front ++ '-' :: (s ++ ending)) =
      (before.filter (fun piece => !decide (IsVoid piece)) ++
        onLast (· ++ ending) (onFirst (piece ++ '-' :: ·) (dashedParts s))).map String.ofList := by
    rw [namesOf_eq, cut, split_append_plain ends.plain, List.filter_append]
    congr 2
    unfold dashedParts
    cases pieces : split '/' s with
    | nil => exact absurd pieces (split_ne_nil '/' s)
    | cons first rest =>
        cases rest with
        | nil => simp [onLast, onFirst, innerParts, some]
        | cons next others =>
            have more := innerParts_ne_nil (List.cons_ne_nil next others)
            dsimp only
            rw [onLast_cons _ _ (List.cons_ne_nil _ _), onFirst, onFirst,
              List.filter_cons_of_pos (by simpa using some first), filter_onLast ends.fits,
              onLast_cons _ _ more]
  have texts : Function.Injective (List.map String.ofList) :=
    List.map_injective_iff.mpr fun _ _ => String.ofList_inj.mp
  have dashes : Function.Injective (piece ++ '-' :: · : List Char → List Char) := fun _ _ same =>
    (List.cons.inj (List.append_cancel_left same)).2
  rw [names, names, texts.eq_iff, List.append_cancel_left_eq,
    (onLast_injective (List.append_left_injective ending)).eq_iff,
    (onFirst_injective dashes).eq_iff]

theorem below_eq_iff {base : Path} {s t : String}
    (root : Path.rootOf s.toList = Path.rootOf t.toList) :
    base.below s = base.below t ↔ Path.namesOf s.toList = Path.namesOf t.toList := by
  unfold Path.below Path.join Path.ofText
  rw [root]
  dsimp only
  split <;> simp

/-! ## Outputs for functions -/

theorem rootOf_dashed (front s t : List Char) :
    Path.rootOf (front ++ '-' :: s) = Path.rootOf (front ++ '-' :: t) := by
  have slashes (s : List Char) : (front ++ '-' :: s).takeWhile (· == '/') =
      front.takeWhile (· == '/') := by
    induction front with
    | nil => rfl
    | cons c rest ih =>
        rw [List.cons_append, List.takeWhile_cons, List.takeWhile_cons, ih]
  unfold Path.rootOf
  rw [slashes, slashes]

theorem rootOf_relative {s : List Char} (relative : s.head? ≠ some '/') :
    Path.rootOf s = "" := by
  have slashes : s.takeWhile (· == '/') = [] := by
    cases s with
    | nil => rfl
    | cons c rest =>
        have other : c ≠ '/' := fun same => relative (congrArg some same)
        simp [other]
  unfold Path.rootOf
  rw [slashes]
  rfl

theorem graphPath_eq_iff {directory : Path} {stem : String} {scheme : Scheme} {f g : String} :
    graphPath directory stem scheme f = graphPath directory stem scheme g ↔
      dashedParts (safeName f).toList = dashedParts (safeName g).toList := by
  have text (name : String) : (stem ++ "-" ++ name ++ ".json").toList =
      stem.toList ++ '-' :: (name.toList ++ ".json".toList) := by
    simp [String.toList_append]
  unfold graphPath
  rw [below_eq_iff (by rw [text, text]; exact rootOf_dashed _ _ _), text, text]
  exact namesOf_dashed_iff (ends_of_mem (c := 'j') (by decide) (by decide) (by decide)) _ _ _

def callGraphEnding (hop : Bool) : String :=
  if hop then "-1hopcg.json" else "-cg.json"

def callGraphDirectory (directory : Path) (stem : String) (hop : Bool) : Path :=
  if hop then directory.below (stem ++ "-1hop") else directory.below stem

theorem callGraphPath_eq (directory : Path) (stem name : String) (hop : Bool) :
    callGraphPath directory stem name hop =
      (callGraphDirectory directory stem hop).below (safeName name ++ callGraphEnding hop) := by
  unfold callGraphPath callGraphDirectory callGraphEnding
  cases hop with
  | true => rw [if_pos rfl, if_pos rfl, if_pos rfl]
  | false => rw [if_neg nofun, if_neg nofun, if_neg nofun]

theorem head?_safeName {name : String} (relative : name.toList.head? ≠ some '/')
    (ending : List Char) (start : ending.head? ≠ some '/') :
    ((safeName name).toList ++ ending).head? ≠ some '/' := by
  have kept : (safeName name).toList.head? = name.toList.head? := by
    unfold safeName
    split
    · rw [String.toList_ofList, List.head?_take, if_neg (by decide)]
    · rfl
  rw [List.head?_append, kept]
  cases first : name.toList.head? with
  | none => exact start
  | some c =>
      rw [first] at relative
      exact relative

theorem callGraphPath_eq_iff {directory : Path} {stem f g : String} {hop : Bool}
    (first : f.toList.head? ≠ some '/') (second : g.toList.head? ≠ some '/') :
    callGraphPath directory stem f hop = callGraphPath directory stem g hop ↔
      leadingParts (safeName f).toList = leadingParts (safeName g).toList := by
  have start : (callGraphEnding hop).toList.head? ≠ some '/' := by cases hop <;> decide
  have ends : Ends (callGraphEnding hop).toList := by
    cases hop <;> exact ends_of_mem (c := 'g') (by decide) (by decide) (by decide)
  have relative {name : String} (slashless : name.toList.head? ≠ some '/') :
      Path.rootOf (safeName name ++ callGraphEnding hop).toList = "" := by
    rw [String.toList_append]
    exact rootOf_relative (head?_safeName slashless _ start)
  rw [callGraphPath_eq, callGraphPath_eq,
    below_eq_iff ((relative first).trans (relative second).symm), String.toList_append,
    String.toList_append]
  exact namesOf_leading_iff ends _ _

/-! ### Names without slashes -/

theorem dashedParts_plain {s : List Char} (plain : '/' ∉ s) : dashedParts s = [s] := by
  unfold dashedParts
  rw [split_of_not_mem plain]
  rfl

theorem leadingParts_plain {s : List Char} (plain : '/' ∉ s) : leadingParts s = [s] := by
  unfold leadingParts
  rw [split_of_not_mem plain]
  rfl

variable {tree : Tree} {directory : Path} {stem f g : String} {scheme : Scheme} {hop : Bool}

theorem isName_graph (slashless : '/' ∉ stem.toList) (plain : '/' ∉ f.toList) :
    IsName (stem ++ "-" ++ safeName f ++ ".json") := by
  refine isName_ended ?_ (by decide)
  simp only [String.toList_append, List.mem_append, not_or]
  exact ⟨⟨slashless, by decide⟩, safeName_plain plain⟩

theorem isName_callGraph (plain : '/' ∉ f.toList) :
    IsName (safeName f ++ callGraphEnding hop) := by
  cases hop <;> exact isName_ended (safeName_plain plain) (by decide)

theorem destination_graphPath (slashless : '/' ∉ stem.toList) (plain : '/' ∉ f.toList) :
    tree.destination (graphPath directory stem scheme f) =
      tree.destination (directory.below (stem ++ "-" ++ scheme.name)) ++
        [stem ++ "-" ++ safeName f ++ ".json"] :=
  destination_below (isName_graph slashless plain) tree _

theorem destination_callGraphPath (plain : '/' ∉ f.toList) :
    tree.destination (callGraphPath directory stem f hop) =
      tree.destination (callGraphDirectory directory stem hop) ++
        [safeName f ++ callGraphEnding hop] := by
  rw [callGraphPath_eq]
  exact destination_below (isName_callGraph plain) tree _

theorem head?_of_plain {s : List Char} (plain : '/' ∉ s) : s.head? ≠ some '/' :=
  fun first => plain (List.mem_of_mem_head? first)

theorem graphPath_plain_iff (first : '/' ∉ f.toList) (second : '/' ∉ g.toList) :
    graphPath directory stem scheme f = graphPath directory stem scheme g ↔ Indistinct f g := by
  rw [graphPath_eq_iff, dashedParts_plain (safeName_plain first),
    dashedParts_plain (safeName_plain second), List.singleton_inj, String.toList_inj,
    safeName_eq_iff]

theorem callGraphPath_plain_iff (first : '/' ∉ f.toList) (second : '/' ∉ g.toList) :
    callGraphPath directory stem f hop = callGraphPath directory stem g hop ↔ Indistinct f g := by
  rw [callGraphPath_eq_iff (head?_of_plain first) (head?_of_plain second),
    leadingParts_plain (safeName_plain first), leadingParts_plain (safeName_plain second),
    List.singleton_inj, String.toList_inj, safeName_eq_iff]

/-- Two functions of one file share the path of an output when their names, cut to the length of a
file name, have the same parts between slashes. Names without slashes share one, and with it the
place of the output in any tree, when they are the same or are both cut to one text. -/
theorem functionOutputs_shared_iff (directory : Path) (stem : String) (scheme : Scheme)
    (hop : Bool) (f g : String) :
    (graphPath directory stem scheme f = graphPath directory stem scheme g ↔
        dashedParts (safeName f).toList = dashedParts (safeName g).toList) ∧
      (f.toList.head? ≠ some '/' → g.toList.head? ≠ some '/' →
        (callGraphPath directory stem f hop = callGraphPath directory stem g hop ↔
          leadingParts (safeName f).toList = leadingParts (safeName g).toList)) ∧
      ('/' ∉ f.toList → '/' ∉ g.toList →
        (graphPath directory stem scheme f = graphPath directory stem scheme g ↔
            Indistinct f g) ∧
          (callGraphPath directory stem f hop = callGraphPath directory stem g hop ↔
            Indistinct f g) ∧
          ∀ tree : Tree,
            ('/' ∉ stem.toList →
              (tree.destination (graphPath directory stem scheme f) =
                tree.destination (graphPath directory stem scheme g) ↔ Indistinct f g)) ∧
            (tree.destination (callGraphPath directory stem f hop) =
              tree.destination (callGraphPath directory stem g hop) ↔ Indistinct f g)) := by
  refine ⟨graphPath_eq_iff, callGraphPath_eq_iff, fun first second =>
    ⟨graphPath_plain_iff first second, callGraphPath_plain_iff first second, fun tree => ⟨?_, ?_⟩⟩⟩
  · intro slashless
    rw [destination_graphPath slashless first, destination_graphPath slashless second,
      List.append_cancel_left_eq, List.singleton_inj, String.append_left_inj,
      String.append_right_inj, safeName_eq_iff]
  · rw [destination_callGraphPath first, destination_callGraphPath second,
      List.append_cancel_left_eq, List.singleton_inj, String.append_left_inj, safeName_eq_iff]

theorem functionOutputs_distinct :
    '/' ∉ "f".toList ∧ '/' ∉ "g".toList ∧
      (∀ directory scheme,
        graphPath directory "a" scheme "f" ≠ graphPath directory "a" scheme "g") ∧
      (∀ directory hop, callGraphPath directory "a" "f" hop ≠ callGraphPath directory "a" "g" hop) ∧
      ∀ tree : Tree, ∀ directory scheme hop,
        tree.destination (graphPath directory "a" scheme "f") ≠
            tree.destination (graphPath directory "a" scheme "g") ∧
          tree.destination (callGraphPath directory "a" "f" hop) ≠
            tree.destination (callGraphPath directory "a" "g" hop) := by
  have first : '/' ∉ "f".toList := by decide
  have second : '/' ∉ "g".toList := by decide
  have distinct : ¬ Indistinct "f" "g" := by
    rintro (same | ⟨-, long | same, -⟩)
    · exact absurd same (by decide)
    · exact absurd long (by decide)
    · exact absurd same (by decide)
  have apart directory scheme hop :=
    (functionOutputs_shared_iff directory "a" scheme hop "f" "g").2.2 first second
  refine ⟨first, second, fun directory scheme => ?_, fun directory hop => ?_,
    fun tree directory scheme hop => ⟨?_, ?_⟩⟩
  · exact fun same => distinct ((apart directory scheme true).1.mp same)
  · exact fun same => distinct ((apart directory .esil hop).2.1.mp same)
  · exact fun same => distinct
      ((((apart directory scheme hop).2.2 tree).1 (by decide)).mp same)
  · exact fun same => distinct (((apart directory scheme hop).2.2 tree).2.mp same)

def longName (c : Char) : String :=
  String.ofList (List.replicate cutNameLength 'n' ++ List.replicate 26 c)

theorem isCut_longName (c : Char) : IsCut (longName c) := by
  refine .inl ?_
  rw [longName, String.length_ofList, List.length_append, List.length_replicate,
    List.length_replicate]
  decide

theorem indistinct_longName (c d : Char) : Indistinct (longName c) (longName d) := by
  have front (c : Char) : (longName c).toList.take cutNameLength =
      List.replicate cutNameLength 'n' := by
    rw [longName, String.toList_ofList]
    exact List.take_left' List.length_replicate
  exact .inr ⟨(front c).trans (front d).symm, isCut_longName c, isCut_longName d⟩

/-- Two functions with long names have the same outputs. -/
theorem functionOutputs_longNames :
    longName 'a' ≠ longName 'b' ∧
      (∀ directory stem scheme, graphPath directory stem scheme (longName 'a') =
        graphPath directory stem scheme (longName 'b')) ∧
      ∀ directory stem hop, callGraphPath directory stem (longName 'a') hop =
        callGraphPath directory stem (longName 'b') hop := by
  have plain (c : Char) (other : c ≠ '/') : '/' ∉ (longName c).toList := by
    simp [longName, Ne.symm other]
  have same := indistinct_longName 'a' 'b'
  refine ⟨?_, fun directory stem scheme => ?_, fun directory stem hop => ?_⟩
  · intro equal
    have last := congrArg (fun name => name.toList.getLast?) equal
    simp [longName, List.getLast?_append, List.getLast?_replicate] at last
  · exact (graphPath_plain_iff (plain 'a' (by decide)) (plain 'b' (by decide))).mpr same
  · exact (callGraphPath_plain_iff (plain 'a' (by decide)) (plain 'b' (by decide))).mpr same

/-! ## Outputs for input files -/

theorem mem_of_mem_cutAt {word s : List Char} {c : Char} (member : c ∈ cutAt word s) : c ∈ s := by
  induction s with
  | nil => exact member
  | cons first rest ih =>
      unfold cutAt at member
      split at member
      · cases member
      · rcases List.mem_cons.mp member with rfl | later
        · exact List.mem_cons_self
        · exact List.mem_cons_of_mem first (ih later)

theorem inputStem_plain {input : Path} (plain : '/' ∉ input.name.toList) :
    '/' ∉ (inputStem input).toList := by
  unfold inputStem Path.stemBefore
  rw [String.toList_ofList]
  exact fun member => plain (mem_of_mem_cutAt member)

theorem name_plain_of_listed {directory input : Path} {names : List String}
    (listed : tree.Listed directory input names) (proper : tree.IsProper) :
    '/' ∉ input.name.toList := by
  obtain rfl := listed.shape
  obtain ⟨before, last, rfl⟩ := (names.eq_nil_or_concat').resolve_left listed.nonempty
  have isName := listed.isName proper (List.mem_append_right before List.mem_cons_self)
  have name :
      Path.name { directory with names := directory.names ++ (before ++ [last]) } = last := by
    simp [ Path.name]
  rw [name]
  exact isName.noSlash

/-- One of several input files that were found has a name without slashes. -/
theorem name_plain_of_found {w : Workspace} {path p q : Path} {deep : Bool} {files : List Path}
    (proper : w.tree.IsProper) (found : ((findInputs path deep).on w).1 = .ok files)
    (first : p ∈ files) (second : q ∈ files) (distinct : p ≠ q) : '/' ∉ p.name.toList := by
  unfold findInputs at found
  rw [Job.on_bind, Job.on_ask] at found
  rcases tested : w.tree.isFile path with fault | _ | _ <;> rw [tested] at found
  · cases found
  · simp only [Bool.false_eq_true, ↓reduceIte] at found
    rw [Job.on_bind, Job.on_ask] at found
    rcases listed : w.tree.filesBelow path deep with fault | all <;> rw [listed] at found
    · cases found
    · cases found
      obtain ⟨names, listed⟩ := Tree.listed_of_mem_filesBelow listed (List.mem_of_mem_filter first)
      exact name_plain_of_listed listed proper
  · -- A file that is named itself is the only one.
    cases found
    rw [List.mem_singleton] at first second
    exact absurd (first.trans second.symm) distinct

/-- No output for one file has the path of one for the other, with the same options. -/
structure OutputsApart (p q : Path) : Prop where
  graphs : ∀ directory scheme f g, graphPath directory (inputStem p) scheme f ≠
    graphPath directory (inputStem q) scheme g
  corpora : ∀ directory scheme format,
    corpusPath directory scheme format p ≠ corpusPath directory scheme format q
  summaries : ∀ directory, summaryPath directory p ≠ summaryPath directory q
  metadata : ∀ directory, metadataPath directory p ≠ metadataPath directory q

/-- No output for one file is in the place of one for the other, as long as the names of functions
lead nowhere else. -/
structure PlacesApart (tree : Tree) (p q : Path) : Prop where
  graphs : ∀ directory scheme f g, '/' ∉ f.toList → '/' ∉ g.toList →
    tree.destination (graphPath directory (inputStem p) scheme f) ≠
      tree.destination (graphPath directory (inputStem q) scheme g)
  corpora : ∀ directory scheme format, tree.destination (corpusPath directory scheme format p) ≠
    tree.destination (corpusPath directory scheme format q)
  summaries : ∀ directory, tree.destination (summaryPath directory p) ≠
    tree.destination (summaryPath directory q)
  metadata : ∀ directory, tree.destination (metadataPath directory p) ≠
    tree.destination (metadataPath directory q)

theorem isName_scheme {stem : String} (plain : '/' ∉ stem.toList) (scheme : Scheme) :
    IsName (stem ++ "-" ++ scheme.name) := by
  rw [String.append_assoc]
  cases scheme <;> exact isName_ended plain (by decide)

theorem isEnding_corpus (format : CorpusFormat) (scheme : Scheme) :
    isEnding (corpusEnding format scheme) := by
  cases format with
  | walks pairs => cases scheme <;> decide +revert
  | texts => cases scheme <;> decide
  | singles => cases scheme <;> decide

theorem below_relative {base : Path} {s : String} (root : Path.rootOf s.toList = "") :
    base.below s = { base with names := base.names ++ Path.namesOf s.toList } := by
  unfold Path.below Path.join Path.ofText
  rw [root]
  rfl

/-- The graphs for an input file go to a directory of its own. -/
theorem graphPath_below (directory : Path) (scheme : Scheme) {stem : String}
    (plain : '/' ∉ stem.toList) (f : String) :
    ∃ rest, graphPath directory stem scheme f =
      { directory with names := directory.names ++ (stem ++ "-" ++ scheme.name) :: rest } := by
  have start : (stem ++ "-" ++ safeName f ++ ".json").toList.head? ≠ some '/' := by
    simp only [String.toList_append, List.append_assoc, List.head?_append]
    cases front : stem.toList.head? with
    | none => exact nofun
    | some c =>
        rintro same
        cases same
        exact head?_of_plain plain front
  refine ⟨Path.namesOf (stem ++ "-" ++ safeName f ++ ".json").toList, ?_⟩
  unfold graphPath
  rw [below_relative (rootOf_relative start), (isName_scheme plain scheme).below]
  simp

section

variable {p q : Path} (first : '/' ∉ (inputStem p).toList) (second : '/' ∉ (inputStem q).toList)
  (distinct : inputStem p ≠ inputStem q)

include first second distinct

theorem below_apart {ending : String} (fits : isEnding ending) (base : Path) :
    base.below (inputStem p ++ ending) ≠ base.below (inputStem q ++ ending) ∧
      ∀ tree : Tree, tree.destination (base.below (inputStem p ++ ending)) ≠
        tree.destination (base.below (inputStem q ++ ending)) := by
  have one := isName_ended first fits
  have other := isName_ended second fits
  constructor
  · rw [one.below, other.below]
    simpa [String.append_left_inj] using distinct
  · intro tree
    rw [destination_below one, destination_below other]
    simpa [String.append_left_inj] using distinct

theorem outputsApart_of_stems : OutputsApart p q where
  graphs directory scheme f g := by
    obtain ⟨one, left⟩ := graphPath_below directory scheme first f
    obtain ⟨other, right⟩ := graphPath_below directory scheme second g
    rw [left, right]
    simp [String.append_left_inj, distinct]
  corpora directory scheme format :=
    (below_apart first second distinct (isEnding_corpus format scheme) directory).1
  summaries directory := (below_apart first second distinct rfl directory).1
  metadata directory := (below_apart first second distinct rfl directory).1

theorem placesApart_of_stems (tree : Tree) : PlacesApart tree p q where
  graphs directory scheme f g plain slashless := by
    rw [destination_graphPath first plain, destination_graphPath second slashless,
      destination_below (isName_scheme first scheme),
      destination_below (isName_scheme second scheme)]
    simp [String.append_left_inj, distinct]
  corpora directory scheme format :=
    (below_apart first second distinct (isEnding_corpus format scheme) directory).2 tree
  summaries directory := (below_apart first second distinct rfl directory).2 tree
  metadata directory := (below_apart first second distinct rfl directory).2 tree

end

/-- The outputs for two input files that were found together are apart, also in their places,
exactly when the stems of the files differ. -/
theorem outputs_apart_iff {w : Workspace} {path p q : Path} {deep : Bool} {files : List Path}
    (proper : w.tree.IsProper) (found : ((findInputs path deep).on w).1 = .ok files)
    (first : p ∈ files) (second : q ∈ files) (distinct : p ≠ q) :
    (OutputsApart p q ↔ inputStem p ≠ inputStem q) ∧
      (inputStem p ≠ inputStem q → ∀ tree, PlacesApart tree p q) := by
  have one := inputStem_plain (name_plain_of_found proper found first second distinct)
  have other := inputStem_plain (name_plain_of_found proper found second first (Ne.symm distinct))
  refine ⟨⟨fun apart same => ?_, outputsApart_of_stems one other⟩, placesApart_of_stems one other⟩
  -- Every output takes nothing but the stem from its input.
  refine apart.summaries p ?_
  unfold summaryPath
  rw [same]

def pairWorkspace (name : String) : Workspace where
  tree := { entries := [
    (["in"], .directory),
    (["in", "a.json"], .file (.text (twoBlocks "f"))),
    (["in", name], .file (.text (twoBlocks "g")))] }

def inputDirectory : Path := ⟨"", ["in"]⟩

theorem found_of_listed {w : Workspace} {path : Path} {files : List Path}
    (other : w.tree.isFile path = .ok false) (listed : w.tree.filesBelow path true = .ok files) :
    ((findInputs path true).on w).1 =
      .ok (files.filter fun file => inputSuffixes.contains file.suffix) := by
  unfold findInputs
  rw [Job.on_bind, Job.on_ask, other]
  simp only [Bool.false_eq_true, ↓reduceIte]
  rw [Job.on_bind, Job.on_ask, listed]
  rfl

theorem outputs_apart_pair :
    OutputsApart ⟨"", ["in", "a.json"]⟩ ⟨"", ["in", "b.json"]⟩ ∧
      ∀ tree, PlacesApart tree ⟨"", ["in", "a.json"]⟩ ⟨"", ["in", "b.json"]⟩ := by
  have proper : (pairWorkspace "b.json").tree.IsProper :=
    Tree.isProper_of_entries rfl (by decide) (by decide)
  have listed : (pairWorkspace "b.json").tree.filesBelow inputDirectory true =
      .ok [⟨"", ["in", "a.json"]⟩, ⟨"", ["in", "b.json"]⟩] :=
    Tree.filesBelow_of_sorted ["in"] (by decide +kernel) (by decide +kernel) rfl (by decide)
  have found := found_of_listed (w := pairWorkspace "b.json") (by decide +kernel) listed
  obtain ⟨paths, places⟩ := outputs_apart_iff (p := ⟨"", ["in", "a.json"]⟩)
    (q := ⟨"", ["in", "b.json"]⟩) proper found (by decide) (by decide) (by decide)
  exact ⟨paths.mpr (by decide +kernel), places (by decide +kernel)⟩

/-- Two files that differ in their suffixes have the same corpus, and the second one is skipped. -/
theorem outputs_shared_suffixes :
    let files : List Path := [⟨"", ["in", "a.json"]⟩, ⟨"", ["in", "a.jsonl"]⟩]
    ((findInputs inputDirectory true).on (pairWorkspace "a.jsonl")).1 = .ok files ∧
      (∀ directory scheme f, graphPath directory (inputStem ⟨"", ["in", "a.json"]⟩) scheme f =
        graphPath directory (inputStem ⟨"", ["in", "a.jsonl"]⟩) scheme f) ∧
      ((corporaOfFiles { directory := ⟨"", ["o"]⟩, minBlocks := 1 } 1 files).on
        (pairWorkspace "a.jsonl")).1 = .ok { processed := 1, skipped := 1 } := by
  have same : inputStem ⟨"", ["in", "a.json"]⟩ = inputStem ⟨"", ["in", "a.jsonl"]⟩ := by
    decide +kernel
  have listed : (pairWorkspace "a.jsonl").tree.filesBelow inputDirectory true =
      .ok [⟨"", ["in", "a.json"]⟩, ⟨"", ["in", "a.jsonl"]⟩] :=
    Tree.filesBelow_of_sorted ["in"] (by decide +kernel) (by decide +kernel) rfl (by decide)
  refine ⟨?_, fun directory scheme f => by rw [same], by decide +kernel⟩
  exact found_of_listed (w := pairWorkspace "a.jsonl") (by decide +kernel) listed

end FlowCorpus.Batch
