import FlowCorpus.Fault
import FlowCorpus.Json.Basic
import FlowCorpus.Number.Numeral

/-!
# Tensors

A tensor is nested lists of numbers that are as long as each other at every depth. It is kept as
its extents, from the outermost list to the innermost one, and its entries in the order in which
they are written.

Sums are rounded after every addition, so that their order shows. Rows are added one by one; a
single column of numbers is added in eight lanes, and a long one by halves.
-/

set_option autoImplicit false

namespace FlowCorpus.Feature

open FlowCorpus.Json FlowCorpus.Number

/-- Nested lists of numbers. There are as many entries as the product of the extents. -/
structure Tensor where
  extents : List Nat
  entries : List Binary64
deriving DecidableEq, Repr

/-- An integer as a double; one beyond the greatest double is refused. -/
def doubleOfInt (n : Int) : Except Fault Binary64 :=
  match Binary64.ofInt n with
  | .infinite _ => .error .integerTooLarge
  | x => .ok x

/-- A value as a double: a number, true and false as one and zero, or a text that is a number. -/
def doubleOf : Value → Except Fault Binary64
  | .int n => doubleOfInt n
  | .float x => .ok x
  | .bool b => .ok (Binary64.ofNat (if b then 1 else 0))
  | .str (.whole s) =>
    match readDouble? s.toList with
    | some x => .ok x
    | none => .error (.notANumber s)
  | .str s => .error (.notANumber s)
  | _ => .error .wrongType

def pieces {α : Type} (size : Nat) : Nat → List α → List (List α)
  | 0, _ => []
  | count + 1, items => items.take size :: pieces size count (items.drop size)

namespace Tensor

def maxDepth : Nat := 64

def entryLimit : Nat := 1152921504606846976

def count (extents : List Nat) : Nat :=
  extents.foldr (· * ·) 1

mutual

/-- The extents of a value. One that is not a list has none, and the items of a list have to have
the same ones. -/
def extents? : Value → Option (List Nat)
  | .arr items => (itemExtents? items).map (items.length :: ·)
  | _ => some []

def itemExtents? : List Value → Option (List Nat)
  | [] => some []
  | [item] => extents? item
  | item :: rest => do
    let extents ← extents? item
    if (← itemExtents? rest) = extents then some extents else none

end

/-- The double of an entry; null stands for not a number. -/
def entryOf : Value → Except Fault Binary64
  | .null => .ok .nan
  | value => doubleOf value

mutual

def entriesOf : Value → Except Fault (List Binary64)
  | .arr items => itemEntries items
  | value => do return [← entryOf value]

def itemEntries : List Value → Except Fault (List Binary64)
  | [] => .ok []
  | item :: rest => do return (← entriesOf item) ++ (← itemEntries rest)

end

/-- The tensor that a value stands for. The extents are settled before any entry is looked at. -/
def ofValue (value : Value) : Except Fault Tensor :=
  match extents? value with
  | none => .error .raggedRows
  | some extents =>
    if maxDepth < extents.length then .error .raggedRows
    else do return ⟨extents, ← entriesOf value⟩

def nest : List Nat → List Binary64 → Value
  | [], entries => .float (entries.headD .nan)
  | n :: rest, entries => .arr ((pieces (count rest) n entries).map (nest rest))

def toValue (t : Tensor) : Value :=
  nest t.extents t.entries

def extentOf : Value → Except Fault Int
  | .int n => if n.natAbs < entryLimit then .ok n else .error .impossibleExtents
  | _ => .error .wrongType

def extentsOf : Value → Except Fault (List Int)
  | .arr items =>
    if items.length ≤ maxDepth then items.mapM extentOf else .error .impossibleExtents
  | value => do return [← extentOf value]

/-- The tensor of zeros of some extents. No extent is negative, and those other than zero ask for
fewer entries than memory could hold. -/
def zeros (extents : List Int) : Except Fault Tensor :=
  if extents.any (· < 0) || entryLimit ≤ count ((extents.map Int.toNat).filter (· != 0)) then
    .error .impossibleExtents
  else
    let extents := extents.map Int.toNat
    .ok ⟨extents, List.replicate (count extents) (Binary64.ofNat 0)⟩

/-! ## Means -/

def sumInOrder (start : Binary64) (xs : List Binary64) : Binary64 :=
  xs.foldl Binary64.add start

/-- The sum of eight lanes, pair by pair; fewer numbers are added one by one. -/
def sumLanes : List Binary64 → Binary64
  | [a, b, c, d, e, f, g, h] =>
    ((a.add b).add (c.add d)).add ((e.add f).add (g.add h))
  | xs => sumInOrder (Binary64.ofNat 0) xs

/-- The sum of at most a hundred and twenty-eight numbers: those in whole groups of eight in eight
lanes, and then the rest one by one. -/
def sumGroups (xs : List Binary64) : Binary64 :=
  match pieces 8 (xs.length / 8) xs with
  | [] => sumInOrder (Binary64.ofNat 0) xs
  | first :: groups =>
    sumInOrder (sumLanes (groups.foldl (List.zipWith Binary64.add) first))
      (xs.drop (8 * (groups.length + 1)))

/-- The sum of a column, by halves of whole groups of eight while it is long. -/
def sumColumn (xs : List Binary64) : Binary64 :=
  if xs.length ≤ 128 then sumGroups xs
  else
    let half := xs.length / 2 / 8 * 8
    (sumColumn (xs.take half)).add (sumColumn (xs.drop half))
termination_by xs.length
decreasing_by
  · simp only [List.length_take]; omega
  · simp only [List.length_drop]; omega

/-- The sum of rows, entry by entry, beginning from zero. -/
def sumOfRows (width : Nat) (rows : List (List Binary64)) : List Binary64 :=
  rows.foldl (List.zipWith Binary64.add) (List.replicate width (Binary64.ofNat 0))

/-- The mean of the items of a tensor. Numbers and lists without items have none. -/
def mean (t : Tensor) : Except Fault Tensor :=
  match t.extents with
  | rows :: extents =>
    let width := count extents
    let sums :=
      if width = 1 then [(Binary64.ofNat 0).add (sumColumn t.entries)]
      else sumOfRows width (pieces width rows t.entries)
    .ok ⟨extents, sums.map fun x => x.divNat rows⟩
  | [] => .error .wrongType

end Tensor
end FlowCorpus.Feature
