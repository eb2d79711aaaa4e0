import FlowCorpus.Json.Parser
import FlowCorpus.Json.Printer
import FlowCorpus.Proofs.Text.Loose

/-!
# Written texts are read back

Every code point is written as itself or as an escape, and what stands behind the closing quote does
not matter: the reader takes exactly the text that was written.
-/

set_option autoImplicit false

namespace FlowCorpus.Json

open FlowCorpus.Text

/-! ## Escapes -/

theorem hexValue?_digitChar {d : Nat} (small : d < 16) : hexValue? d.digitChar = some d := by
  decide +revert

theorem hex_succ (width n : Nat) :
    hex (width + 2) n = hex (width + 1) (n / 16) ++ [(n % 16).digitChar] := by
  have digits (m : Nat) : Nat.toDigits 16 m =
      if m < 16 then [m.digitChar] else Nat.toDigits 16 (m / 16) ++ [(m % 16).digitChar] :=
    Nat.toDigits_eq_if (by decide)
  unfold hex
  by_cases short : n < 16
  · have none : n / 16 = 0 := by omega
    have zeros : List.replicate (width + 1) '0' = List.replicate width '0' ++ ['0'] :=
      List.replicate_succ'
    simp [digits n, short, none, Nat.mod_eq_of_lt short, zeros]
  · simp only [digits n, if_neg short, List.length_append, List.length_singleton,
      Nat.reduceSubDiff, List.append_assoc]
 
theorem hex_four {n : Nat} (small : n < 0x10000) :
    hex 4 n = [(n / 4096).digitChar, (n / 256 % 16).digitChar, (n / 16 % 16).digitChar,
      (n % 16).digitChar] := by
  have first : hex 1 (n / 4096) = [(n / 4096).digitChar] := by
    have digit : n / 4096 < 16 := by omega
    simp [hex, Nat.toDigits_of_lt_base digit]
  simp only [hex_succ, Nat.div_div_eq_div_mul, Nat.reduceMul, first, List.cons_append,
    List.nil_append]

theorem textUnits_unitEscape {n : Nat} (small : n < 0x10000) (units : List Nat)
    (rest : List Char) :
    textUnits units (unitEscape n ++ rest) = textUnits (n :: units) rest := by
  have value : unit? (n / 4096).digitChar (n / 256 % 16).digitChar (n / 16 % 16).digitChar
      (n % 16).digitChar = some n := by
    have first : n / 4096 < 16 := by omega
    have other (m : Nat) : hexValue? (m % 16).digitChar = some (m % 16) :=
      hexValue?_digitChar (Nat.mod_lt m (by decide))
    simp only [unit?, hexValue?_digitChar first, other, Option.some.injEq]
    omega
  simp [unitEscape, hex_four small, textUnits, value]

theorem textUnits_escaped {c : Char} {n : Nat} (short : escaped? c = some n) (units : List Nat)
    (rest : List Char) : textUnits units ('\\' :: c :: rest) = textUnits (n :: units) rest := by
  have other : c ≠ 'u' := by
    rintro rfl
    cases short
  rw [textUnits.eq_def]
  simp [other, short]

theorem textUnits_plain {c : Char} (noQuote : c ≠ '"') (noEscape : c ≠ '\\')
    (printable : 0x20 ≤ c.toNat) (units : List Nat) (rest : List Char) :
    textUnits units (c :: rest) = textUnits (c.toNat :: units) rest := by
  rw [textUnits.eq_def]
  simp [noQuote, noEscape, Nat.not_lt.mpr printable]

theorem textUnits_quote (units : List Nat) (rest : List Char) :
    textUnits units ('"' :: rest) = .ok (units.reverse, rest) := by
  rw [textUnits.eq_def]
  simp

/-! ## Characters -/

def unitsOf (c : Char) : List Nat :=
  if c.toNat < 0x10000 then [c.toNat]
  else [0xd800 + (c.toNat - 0x10000) / 0x400, 0xdc00 + (c.toNat - 0x10000) % 0x400]

theorem unitsOf_small {c : Char} (small : c.toNat < 0x10000) : unitsOf c = [c.toNat] :=
  if_pos small

theorem textUnits_writeChar (c : Char) (units : List Nat) (rest : List Char) :
    textUnits units (writeChar c ++ rest) = textUnits ((unitsOf c).reverse ++ units) rest := by
  unfold writeChar
  dsimp only
  -- The short escapes come first, five of them known by their characters and two by their codes.
  iterate 5
    split
    · rename_i same
      subst same
      exact textUnits_escaped rfl units rest
  iterate 2
    split
    · rename_i code
      rw [unitsOf_small (by omega), code]
      exact textUnits_escaped rfl units rest
  rename_i noQuote noEscape _ _ _ _ _
  split
  · rename_i printable
    simp only [Bool.and_eq_true, decide_eq_true_eq] at printable
    rw [unitsOf_small (by omega)]
    exact textUnits_plain noQuote noEscape printable.1 units rest
  · split
    · rename_i small
      rw [unitsOf_small small]
      exact textUnits_unitEscape small units rest
    · rename_i large
      have valid := toNat_valid c
      rw [List.append_assoc, textUnits_unitEscape (by omega), textUnits_unitEscape (by omega),
        unitsOf, if_neg large]
      rfl

def pointUnits : Point → List Nat
  | .char c => unitsOf c
  | p => [p.code]

theorem textUnits_writePoint (p : Point) (units : List Nat) (rest : List Char) :
    textUnits units (writePoint p ++ rest) =
      textUnits ((pointUnits p).reverse ++ units) rest := by
  cases p with
  | char c => exact textUnits_writeChar c units rest
  | first bits => exact textUnits_unitEscape (by simp only [Point.code]; omega) units rest
  | second bits => exact textUnits_unitEscape (by simp only [Point.code]; omega) units rest

/-- The points that a code point is read as: itself, or the halves of its surrogate pair. -/
def pointsRead (p : Point) : List Point :=
  (pointUnits p).map Point.ofUnit

theorem pointsRead_half {p : Point} (half : p.isHalf = true) : pointsRead p = [p] := by
  cases p with
  | char c => cases half
  | first bits => exact congrArg (fun p => [p]) (Point.ofUnit_code (.first bits))
  | second bits => exact congrArg (fun p => [p]) (Point.ofUnit_code (.second bits))

/-- A character is read as itself, or as two halves that are joined again. -/
theorem pointsRead_char (c : Char) :
    pointsRead (.char c) = [.char c] ∨
      ∃ a b, pointsRead (.char c) = [.first a, .second b] ∧ Point.paired a b = .char c := by
  simp only [pointsRead, pointUnits]
  by_cases small : c.toNat < 0x10000
  · rw [unitsOf_small small]
    exact .inl (congrArg (fun p => [p]) (Point.ofUnit_toNat c))
  · have valid := toNat_valid c
    have high : (c.toNat - 0x10000) / 0x400 < 0x400 := by omega
    have low : (c.toNat - 0x10000) % 0x400 < 0x400 := by omega
    have first := Point.ofUnit_code (.first ⟨_, high⟩)
    have second := Point.ofUnit_code (.second ⟨_, low⟩)
    refine .inr ⟨⟨_, high⟩, ⟨_, low⟩, ?_, ?_⟩
    · rw [unitsOf, if_neg small, List.map_cons, List.map_singleton, ← first, ← second]
      rfl
    · have code : 0x10000 + (c.toNat - 0x10000) / 0x400 * 0x400 + (c.toNat - 0x10000) % 0x400 =
          c.toNat := by omega
      simp only [Point.paired, code, Char.ofNat_toNat]

theorem head?_pointsRead_second {points : List Point} {b : Fin 0x400}
    (second : (points.flatMap pointsRead).head? = some (.second b)) :
    points.head? = some (.second b) := by
  cases points with
  | nil => cases second
  | cons p points =>
      rw [List.flatMap_cons] at second
      cases p with
      | char c =>
          rcases pointsRead_char c with same | ⟨a, b, halves, -⟩
          · rw [same] at second
            cases second
          · rw [halves] at second
            cases second
      | first a =>
          rw [pointsRead_half rfl] at second
          cases second
      | second c =>
          rw [pointsRead_half rfl] at second
          exact second

/-- Points with nothing left to join are what joining makes of the points they are read as. -/
theorem joined_pointsRead {points : List Point} (apart : Point.joined points = points) :
    Point.joined (points.flatMap pointsRead) = points := by
  induction points with
  | nil => rfl
  | cons p points ih =>
      obtain ⟨further, alone⟩ := Point.joined_cons apart
      rw [List.flatMap_cons]
      cases p with
      | char c =>
          rcases pointsRead_char c with same | ⟨a, b, halves, pair⟩
          · rw [same, List.singleton_append, Point.joined_char, ih further]
          · rw [halves, List.cons_append, List.singleton_append, Point.joined, pair, ih further]
      | first a =>
          have noSecond (b : Fin 0x400) :
              (points.flatMap pointsRead).head? ≠ some (.second b) := fun second =>
            alone a rfl b (head?_pointsRead_second second)
          rw [pointsRead_half rfl, List.singleton_append, Point.joined_first noSecond, ih further]
      | second b =>
          rw [pointsRead_half rfl, List.singleton_append, Point.joined_second, ih further]

theorem ofPoints_pointsRead (s : LooseText) :
    LooseText.ofPoints (s.points.flatMap pointsRead) = s := by
  have joined := joined_pointsRead s.joined_points
  have same : LooseText.ofPoints (s.points.flatMap pointsRead) = LooseText.ofPoints s.points := by
    simp only [LooseText.ofPoints, joined, s.joined_points]
  rw [same, LooseText.ofPoints_points]

/-- A written text is read back, whatever follows it. -/
theorem readText_written (s : LooseText) (rest : List Char) :
    readText (s.points.flatMap writePoint ++ '"' :: rest) = .ok (s, rest) := by
  have units (points : List Point) (before : List Nat) :
      textUnits before (points.flatMap writePoint ++ '"' :: rest) =
        .ok (before.reverse ++ points.flatMap pointUnits, rest) := by
    induction points generalizing before with
    | nil => simp [textUnits_quote]
    | cons p more ih =>
        rw [List.flatMap_cons, List.append_assoc, textUnits_writePoint, ih]
        simp
  have read : (s.points.flatMap pointUnits).map Point.ofUnit = s.points.flatMap pointsRead :=
    List.map_flatMap
  unfold readText
  rw [units, List.reverse_nil, List.nil_append]
  simp only [read, ofPoints_pointsRead]

end FlowCorpus.Json
