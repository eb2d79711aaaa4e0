import Mathlib.Data.List.Basic
import FlowCorpus.Text.Split

/-!
# Pieces of a text

Splitting a text at a separator and joining pieces by one undo each other. Changing the pieces that
a separator closes leaves the number of separators as it is.
-/

set_option autoImplicit false

namespace FlowCorpus.Text

theorem join_singleton (separator piece : List Char) : join separator [piece] = piece := by
  simp [join, List.intercalate]

theorem join_cons_cons (separator piece next : List Char) (pieces : List (List Char)) :
    join separator (piece :: next :: pieces) =
      piece ++ (separator ++ join separator (next :: pieces)) := by
  simp [join, List.intercalate]

theorem join_cons (separator piece : List Char) (pieces : List (List Char)) :
    ∃ more, join separator (piece :: pieces) = piece ++ more := by
  cases pieces with
  | nil => exact ⟨[], by rw [join_singleton, List.append_nil]⟩
  | cons next pieces => exact ⟨_, join_cons_cons separator piece next pieces⟩

theorem join_cons_of_ne_nil {separator piece : List Char} {pieces : List (List Char)}
    (more : pieces ≠ []) :
    join separator (piece :: pieces) = piece ++ (separator ++ join separator pieces) := by
  cases pieces with
  | nil => exact absurd rfl more
  | cons next rest => exact join_cons_cons separator piece next rest

theorem not_mem_join {c : Char} {separator : List Char} {pieces : List (List Char)}
    (outside : c ∉ separator) (plain : ∀ piece ∈ pieces, c ∉ piece) :
    c ∉ join separator pieces := by
  induction pieces with
  | nil => exact List.not_mem_nil
  | cons piece rest ih =>
      have first := plain piece List.mem_cons_self
      cases rest with
      | nil => rwa [join_singleton]
      | cons next more =>
          have others := ih fun other member => plain other (.tail _ member)
          rw [join_cons_cons, List.mem_append, List.mem_append]
          exact fun member => member.elim first fun later => later.elim outside others

variable {separator : Char}

theorem flatMap_separator {pieces : List (List Char)} (some : pieces ≠ []) :
    pieces.flatMap (separator :: ·) = separator :: join [separator] pieces := by
  induction pieces with
  | nil => exact absurd rfl some
  | cons piece rest ih =>
      cases rest with
      | nil => rw [List.flatMap_singleton, join_singleton]
      | cons next more =>
          rw [List.flatMap_cons, ih (List.cons_ne_nil next more), join_cons_cons]
          rfl

theorem length_join (separator : Char) (pieces : List (List Char)) :
    (join [separator] pieces).length = (pieces.flatMap (separator :: ·)).length - 1 := by
  by_cases none : pieces = []
  · rw [none]
    rfl
  · rw [flatMap_separator none, List.length_cons, Nat.add_sub_cancel]

theorem split_of_not_mem {s : List Char} (plain : separator ∉ s) : split separator s = [s] := by
  induction s with
  | nil => rfl
  | cons c rest ih =>
      rw [List.mem_cons, not_or] at plain
      simp only [split, if_neg (Ne.symm plain.1), ih plain.2]

/-- The first piece ends at the first separator. -/
theorem split_append {piece : List Char} (plain : separator ∉ piece) (rest : List Char) :
    split separator (piece ++ separator :: rest) = piece :: split separator rest := by
  induction piece with
  | nil => rw [List.nil_append, split, if_pos rfl]
  | cons c more ih =>
      rw [List.mem_cons, not_or] at plain
      rw [List.cons_append, split, if_neg (Ne.symm plain.1), ih plain.2]

theorem split_join {pieces : List (List Char)} (some : pieces ≠ [])
    (plain : ∀ piece ∈ pieces, separator ∉ piece) :
    split separator (join [separator] pieces) = pieces := by
  induction pieces with
  | nil => exact absurd rfl some
  | cons piece rest ih =>
      have first := plain piece List.mem_cons_self
      cases rest with
      | nil => rw [join_singleton, split_of_not_mem first]
      | cons next more =>
          rw [join_cons_cons, List.singleton_append, split_append first,
            ih (List.cons_ne_nil _ _) fun other member => plain other (.tail _ member)]

/-- A text has no separator, or it is a piece without one, a separator and another text. -/
theorem splitInduction (separator : Char) {motive : List Char → Prop}
    (last : ∀ s, separator ∉ s → motive s)
    (more : ∀ piece rest, separator ∉ piece → motive rest → motive (piece ++ separator :: rest))
    (s : List Char) : motive s := by
  have joined : ∀ pieces : List (List Char), pieces ≠ [] →
      (∀ piece ∈ pieces, separator ∉ piece) → motive (join [separator] pieces) := by
    intro pieces some plain
    induction pieces with
    | nil => exact absurd rfl some
    | cons piece rest ih =>
        have first := plain piece List.mem_cons_self
        cases rest with
        | nil => rw [join_singleton]; exact last piece first
        | cons next others =>
            rw [join_cons_cons]
            exact more piece _ first
              (ih (List.cons_ne_nil _ _) fun other member => plain other (.tail _ member))
  rw [← join_split separator s]
  exact joined _ (split_ne_nil separator s) fun piece => not_mem_of_mem_split

/-- The pieces on both sides of a separator. -/
theorem split_append_separator (separator : Char) (s rest : List Char) :
    split separator (s ++ separator :: rest) = split separator s ++ split separator rest := by
  induction s using splitInduction separator with
  | last s plain =>
      rw [split_append plain, split_of_not_mem plain]
      rfl
  | more piece more plain ih =>
      rw [List.append_assoc, List.cons_append, split_append plain, split_append plain, ih]
      rfl

/-- The pieces joined by another character are the text with this one in place of the separator. -/
theorem join_split_eq_map (separator other : Char) (s : List Char) :
    join [other] (split separator s) = s.map fun c => if c = separator then other else c := by
  have same {piece : List Char} (plain : separator ∉ piece) :
      (piece.map fun c => if c = separator then other else c) = piece := by
    refine (List.map_congr_left fun c member => ?_).trans (List.map_id piece)
    exact if_neg (ne_of_mem_of_not_mem member plain)
  induction s using splitInduction separator with
  | last s plain => rw [split_of_not_mem plain, join_singleton, same plain]
  | more piece rest plain ih =>
      rw [split_append plain, join_cons_of_ne_nil (split_ne_nil separator rest), ih,
        List.map_append, List.map_cons, same plain, if_pos rfl, List.singleton_append]

/-- A word without the separator stands before it or behind it. -/
theorem infix_before_or_behind {word s rest : List Char} (plain : separator ∉ word)
    (inside : word <:+: s ++ separator :: rest) : word <:+: s ∨ word <:+: rest := by
  rcases List.infix_append_iff.mp inside with before | behind | ⟨front, back, rfl, before, behind⟩
  · exact .inl before
  · rcases List.infix_cons_iff.mp behind with here | later
    · cases word with
      | nil => exact .inl List.nil_infix
      | cons c more =>
          obtain rfl := (List.cons_prefix_cons.mp here).1
          exact absurd List.mem_cons_self plain
    · exact .inr later
  · cases back with
    | nil =>
        rw [List.append_nil]
        exact .inl before.isInfix
    | cons c more =>
        obtain rfl := (List.cons_prefix_cons.mp behind).1
        exact absurd (List.mem_append_right _ List.mem_cons_self) plain

/-- A word without the separator stands in one of the pieces. -/
theorem infix_iff_exists_piece {word : List Char} (plain : separator ∉ word) {s : List Char} :
    word <:+: s ↔ ∃ piece ∈ split separator s, word <:+: piece := by
  induction s using splitInduction separator with
  | last s none => simp [split_of_not_mem none]
  | more piece rest none ih =>
      rw [split_append none, List.exists_mem_cons_iff, ← ih]
      constructor
      · exact infix_before_or_behind plain
      · rintro (here | later)
        · exact here.trans (List.prefix_append piece _).isInfix
        · exact later.trans
            ((List.suffix_cons separator rest).trans (List.suffix_append piece _)).isInfix

/-- A text without the separator is its one piece, unless it is empty. -/
theorem filter_split_of_not_mem {s : List Char} (plain : separator ∉ s) (some : s ≠ []) :
    (split separator s).filter (fun piece => !piece.isEmpty) = [s] := by
  rw [split_of_not_mem plain, List.filter_singleton]
  cases s with
  | nil => exact absurd rfl some
  | cons c rest => rfl

/-- The pieces that a separator closes, changed; what comes after the last separator stays. -/
def mapClosed (f : List Char → List Char) : List (List Char) → List (List Char)
  | [] => []
  | [last] => [last]
  | piece :: next :: rest => f piece :: mapClosed f (next :: rest)

theorem mapClosed_cons {f : List Char → List Char} {piece : List Char} {rest : List (List Char)}
    (more : rest ≠ []) : mapClosed f (piece :: rest) = f piece :: mapClosed f rest := by
  cases rest with
  | nil => exact absurd rfl more
  | cons next others => rfl

theorem mapClosed_ne_nil {f : List Char → List Char} {pieces : List (List Char)}
    (some : pieces ≠ []) : mapClosed f pieces ≠ [] := by
  rcases pieces with _ | ⟨piece, _ | ⟨next, rest⟩⟩
  · exact absurd rfl some
  · exact List.cons_ne_nil _ _
  · exact List.cons_ne_nil _ _

theorem mapClosed_id (pieces : List (List Char)) :
    mapClosed (fun piece => piece) pieces = pieces := by
  fun_induction mapClosed (fun piece => piece) pieces with
  | case1 => rfl
  | case2 last => rfl
  | case3 piece next rest ih => rw [ih]

theorem mapClosed_mapClosed (f g : List Char → List Char) (pieces : List (List Char)) :
    mapClosed f (mapClosed g pieces) = mapClosed (f ∘ g) pieces := by
  fun_induction mapClosed g pieces with
  | case1 => rfl
  | case2 last => rfl
  | case3 piece next rest ih =>
      rw [mapClosed_cons (mapClosed_ne_nil (List.cons_ne_nil _ _)), ih]
      rfl

theorem mapClosed_congr {f g : List Char → List Char} {pieces : List (List Char)}
    (same : ∀ piece ∈ pieces, f piece = g piece) : mapClosed f pieces = mapClosed g pieces := by
  fun_induction mapClosed f pieces with
  | case1 => rfl
  | case2 last => rfl
  | case3 piece next rest ih =>
      rw [ih fun other member => same other (.tail _ member), same piece List.mem_cons_self]
      rfl

/-- Changed pieces have no separator if the change puts none in. -/
theorem not_mem_of_mem_mapClosed {f : List Char → List Char} {pieces : List (List Char)}
    (plain : ∀ piece ∈ pieces, separator ∉ piece)
    (keeps : ∀ piece, separator ∉ piece → separator ∉ f piece) :
    ∀ piece ∈ mapClosed f pieces, separator ∉ piece := by
  fun_induction mapClosed f pieces with
  | case1 => exact plain
  | case2 last => exact plain
  | case3 piece next rest ih =>
      rw [List.forall_mem_cons]
      exact ⟨keeps piece (plain piece List.mem_cons_self),
        ih fun other member => plain other (.tail _ member)⟩

end FlowCorpus.Text
