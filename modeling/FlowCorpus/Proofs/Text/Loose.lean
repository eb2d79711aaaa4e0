import FlowCorpus.Text.Loose

/-!
# Texts by their code points

A text with halves of surrogate pairs is known by its code points, and comparing texts by the codes
of their points orders them.
-/

set_option autoImplicit false

namespace FlowCorpus.Text

theorem toNat_valid (c : Char) : c.toNat < 0xd800 ∨ 0xdfff < c.toNat ∧ c.toNat < 0x110000 :=
  c.valid

namespace Point

theorem ofUnit_toNat (c : Char) : ofUnit c.toNat = .char c := by
  have valid := toNat_valid c
  rw [ofUnit, dif_neg (by omega), dif_neg (by omega), Char.ofNat_toNat]

theorem ofUnit_code (p : Point) : ofUnit p.code = p := by
  cases p with
  | char c => exact ofUnit_toNat c
  | first bits =>
      have inside : 0xd800 ≤ 0xd800 + bits.val ∧ 0xd800 + bits.val < 0xdc00 := by omega
      simp only [ofUnit, code, dif_pos inside, Nat.add_sub_cancel_left]
  | second bits =>
      have noFirst : ¬(0xd800 ≤ 0xdc00 + bits.val ∧ 0xdc00 + bits.val < 0xdc00) := by omega
      have inside : 0xdc00 ≤ 0xdc00 + bits.val ∧ 0xdc00 + bits.val < 0xe000 := by omega
      simp only [ofUnit, code, dif_neg noFirst, dif_pos inside, Nat.add_sub_cancel_left]

theorem code_injective {p q : Point} (same : p.code = q.code) : p = q := by
  rw [← ofUnit_code p, same, ofUnit_code]

theorem joined_char (c : Char) (rest : List Point) :
    joined (.char c :: rest) = .char c :: joined rest :=
  joined.eq_2 _ _ (by rintro a b more ⟨⟩)

theorem joined_second (b : Fin 0x400) (rest : List Point) :
    joined (.second b :: rest) = .second b :: joined rest :=
  joined.eq_2 _ _ (by rintro a b more ⟨⟩)

theorem joined_first {rest : List Point} (alone : ∀ b, rest.head? ≠ some (.second b))
    (a : Fin 0x400) : joined (.first a :: rest) = .first a :: joined rest := by
  refine joined.eq_2 _ _ ?_
  rintro - b more - rfl
  exact alone b rfl

theorem joined_map_char (chars : List Char) :
    joined (chars.map Point.char) = chars.map Point.char := by
  induction chars with
  | nil => rfl
  | cons c chars ih => rw [List.map_cons, joined_char, ih]

/-- Of points with nothing left to join no first one is a half that a second half follows, and
nothing is left to join in the other ones. -/
theorem joined_cons {p : Point} {rest : List Point} (apart : joined (p :: rest) = p :: rest) :
    joined rest = rest ∧ ∀ a, p = .first a → ∀ b, rest.head? ≠ some (.second b) := by
  cases p with
  | char c =>
      rw [joined_char] at apart
      exact ⟨(List.cons.inj apart).2, nofun⟩
  | second b =>
      rw [joined_second] at apart
      exact ⟨(List.cons.inj apart).2, nofun⟩
  | first a =>
      have alone (b : Fin 0x400) : rest.head? ≠ some (.second b) := by
        intro follows
        obtain ⟨more, rfl⟩ := List.head?_eq_some_iff.mp follows
        cases apart
      rw [joined_first alone] at apart
      exact ⟨(List.cons.inj apart).2, fun _ _ => alone⟩

end Point

namespace LooseText

@[simp] theorem points_whole (s : String) : points s = s.toList.map Point.char := rfl

@[simp] theorem replaced_whole (s : String) : replaced s = s := rfl

theorem joined_points (t : LooseText) : Point.joined t.points = t.points := by
  cases t with
  | whole s => exact Point.joined_map_char s.toList
  | halved t => exact t.joined

theorem ofPoints_points (t : LooseText) : ofPoints t.points = t := by
  cases t with
  | whole s =>
      have chars : s.toList.map (Point.replaced ∘ Point.char) = s.toList := List.map_id' s.toList
      simp [ofPoints, Point.joined_map_char, Point.isHalf, chars]
  | halved t => simp [ofPoints, points, t.joined, t.halved]

theorem points_injective {s t : LooseText} (same : s.points = t.points) : s = t := by
  rw [← ofPoints_points s, same, ofPoints_points]

@[simp] theorem ofPoints_char (c : Char) : ofPoints [.char c] = String.singleton c := rfl

/-! ## The order of texts -/

theorem le_total (s t : LooseText) : (s.le t || t.le s) = true := by
  simp only [le, Bool.or_eq_true, Bool.not_eq_true', List.lex_eq_false_iff_ge]
  exact List.le_total _ _

theorem le_trans {s t u : LooseText} (first : s.le t = true) (second : t.le u = true) :
    s.le u = true := by
  simp only [le, Bool.not_eq_true', List.lex_eq_false_iff_ge] at first second ⊢
  exact List.le_trans first second

theorem le_antisymm {s t : LooseText} (below : s.le t = true) (above : t.le s = true) : s = t := by
  simp only [le, Bool.not_eq_true', List.lex_eq_false_iff_ge] at below above
  have codes : s.points.map Point.code = t.points.map Point.code := List.le_antisymm below above
  exact points_injective (List.map_inj_right (fun _ _ => Point.code_injective) |>.mp codes)

end LooseText
end FlowCorpus.Text
