/-!
# Splitting at a separator

A text split at every occurrence of one character. Nothing is lost: the pieces joined by the
separator give the text back, and no piece contains it.
-/

set_option autoImplicit false

namespace FlowCorpus.Text

def split (separator : Char) : List Char → List (List Char)
  | [] => [[]]
  | c :: rest =>
    if c = separator then [] :: split separator rest
    else
      match split separator rest with
      | [] => [[c]]
      | piece :: pieces => (c :: piece) :: pieces

def join (separator : List Char) (pieces : List (List Char)) : List Char :=
  separator.intercalate pieces

theorem split_ne_nil (separator : Char) (s : List Char) : split separator s ≠ [] := by
  cases s with
  | nil => simp [split]
  | cons c rest =>
      unfold split
      split
      · simp
      · split <;> simp

/-- Nothing is lost: the pieces joined by the separator are the text. -/
theorem join_split (separator : Char) (s : List Char) :
    join [separator] (split separator s) = s := by
  induction s with
  | nil => simp [split, join, List.intercalate]
  | cons c rest ih =>
      unfold split
      split
      · subst_vars
        cases pieces : split c rest with
        | nil => exact absurd pieces (split_ne_nil c rest)
        | cons piece more =>
            rw [pieces] at ih
            simpa [join, List.intercalate] using ih
      · split
        · rename_i nothing
          exact absurd nothing (split_ne_nil separator rest)
        · rename_i piece more pieces
          rw [pieces] at ih
          cases more with
          | nil => simpa [join, List.intercalate] using ih
          | cons next others => simpa [join, List.intercalate] using ih

/-- No piece contains the separator. -/
theorem not_mem_of_mem_split {separator : Char} {s piece : List Char}
    (found : piece ∈ split separator s) : separator ∉ piece := by
  induction s generalizing piece with
  | nil => simp_all [split]
  | cons c rest ih =>
      unfold split at found
      split at found
      · rcases List.mem_cons.1 found with rfl | found
        · simp
        · exact ih found
      · rename_i different
        split at found
        · rename_i nothing
          exact absurd nothing (split_ne_nil separator rest)
        · rename_i first more pieces
          rcases List.mem_cons.1 found with rfl | found
          · rw [List.mem_cons, not_or]
            exact ⟨fun same => different same.symm, ih (pieces ▸ List.mem_cons_self)⟩
          · exact ih (pieces ▸ List.mem_cons_of_mem _ found)

/-- The first occurrence of the word splits the text in what comes before it and what comes
after; the whole text comes before a word that does not occur. -/
def cutAt (word : List Char) : List Char → List Char
  | [] => []
  | c :: rest => if word.isPrefixOf (c :: rest) then [] else c :: cutAt word rest

def contains (word : List Char) : List Char → Bool
  | [] => word.isEmpty
  | c :: rest => word.isPrefixOf (c :: rest) || contains word rest

end FlowCorpus.Text
