import FlowCorpus.Text.Quoted

/-!
# Texts with halves of surrogate pairs

An escape can name half of a surrogate pair without the other half. A text with such a half has no
bytes in any encoding, and yet it is a text of its own: different halves make different texts. A
first half right before a second one is read as the character of the pair, so a text never has the
two side by side.
-/

set_option autoImplicit false

namespace FlowCorpus.Text

/-- A code point: a character, or the first or second half of a surrogate pair with its ten bits. -/
inductive Point where
  | char (c : Char)
  | first (bits : Fin 0x400)
  | second (bits : Fin 0x400)
deriving DecidableEq, Repr

namespace Point

def code : Point → Nat
  | .char c => c.toNat
  | .first bits => 0xd800 + bits
  | .second bits => 0xdc00 + bits

def isHalf : Point → Bool
  | .char _ => false
  | .first _ | .second _ => true

def ofUnit (n : Nat) : Point :=
  if first : 0xd800 ≤ n ∧ n < 0xdc00 then .first ⟨n - 0xd800, by omega⟩
  else if second : 0xdc00 ≤ n ∧ n < 0xe000 then .second ⟨n - 0xdc00, by omega⟩
  else .char (Char.ofNat n)

def paired (first second : Fin 0x400) : Point :=
  .char (Char.ofNat (0x10000 + first * 0x400 + second))

/-- The character in place of a point that has none. -/
def replaced : Point → Char
  | .char c => c
  | _ => Char.ofNat 0xfffd

def escape (p : Point) : List Char :=
  '\\' :: 'u' :: hex 4 p.code

def joined : List Point → List Point
  | .first a :: .second b :: rest => paired a b :: joined rest
  | p :: rest => p :: joined rest
  | [] => []

theorem eq_second_of_joined {points rest : List Point} {b : Fin 0x400}
    (shape : joined points = .second b :: rest) : ∃ more, points = .second b :: more := by
  unfold joined at shape
  split at shape
  · cases shape
  · cases shape
    exact ⟨_, rfl⟩
  · cases shape

/-- No halves are left to join. -/
theorem joined_joined (points : List Point) : joined (joined points) = joined points := by
  induction points using joined.induct with
  | case1 a b rest ih => simpa [joined, paired] using ih
  | case2 p rest alone ih =>
    rw [joined.eq_2 p rest alone, joined.eq_2 p (joined rest), ih]
    intro a b more first second
    obtain ⟨more, shape⟩ := eq_second_of_joined second
    exact alone a b more first shape
  | case3 => rfl

end Point

structure HalvedText where
  points : List Point
  halved : points.any Point.isHalf = true
  joined : Point.joined points = points
deriving DecidableEq, Repr

/-- A text of characters, or one that has halves of surrogate pairs in it. -/
inductive LooseText where
  | whole (s : String)
  | halved (t : HalvedText)
deriving DecidableEq, Repr, Inhabited

namespace HalvedText

def place (t : HalvedText) : Nat :=
  (t.points.takeWhile fun p => !p.isHalf).length

def firstHalves (t : HalvedText) : List Point :=
  (t.points.dropWhile fun p => !p.isHalf).takeWhile Point.isHalf

end HalvedText

instance : Coe String LooseText where
  coe := .whole

namespace LooseText

def ofPoints (points : List Point) : LooseText :=
  if halved : (Point.joined points).any Point.isHalf = true then
    .halved ⟨Point.joined points, halved, Point.joined_joined points⟩
  else .whole (String.ofList ((Point.joined points).map Point.replaced))

def points : LooseText → List Point
  | .whole s => s.toList.map .char
  | .halved t => t.points

def isEmpty : LooseText → Bool
  | .whole s => s.isEmpty
  | .halved _ => false

def replaced : LooseText → String
  | .whole s => s
  | .halved t => String.ofList (t.points.map Point.replaced)

/-- Whether a text comes before another one, or is the same, by its code points. -/
def le (s t : LooseText) : Bool :=
  !(t.points.map Point.code).lex (s.points.map Point.code)

/-- The text in quotes; a half is shown by its code point. -/
def quoted (t : LooseText) : String :=
  let quote := quoteFor t.replaced.toList
  let shown : Point → List Char
    | .char c => quoteChar quote c
    | p => p.escape
  String.ofList (quote :: (t.points.flatMap shown ++ [quote]))

end LooseText
end FlowCorpus.Text
