import FlowCorpus.Fault
import FlowCorpus.Json.Basic
import FlowCorpus.Number.Notation

/-!
# Deduplication statistics

How many items there were and how many are left. The share of those removed is a percentage with two
places in a table.
-/

set_option autoImplicit false

namespace FlowCorpus.Dedup

open FlowCorpus.Json FlowCorpus.Number

structure Statistics where
  total : Int
  unique : Int
deriving DecidableEq, Repr

namespace Statistics

def removed (s : Statistics) : Int :=
  s.total - s.unique

/-- The share of the items removed in percent; zero when there were none. -/
def percentRemoved (s : Statistics) : Except Fault Binary64 :=
  if s.total = 0 then .ok (Binary64.ofNat 0)
  else
    match Binary64.ofIntRatio s.removed s.total with
    | .infinite _ => .error .quotientTooLarge
    | share => .ok (share.mul (Binary64.ofNat 100))

def row (s : Statistics) : Except Fault Fields := do
  let percent ← s.percentRemoved
  return [("With Dups", .int s.total), ("Without Dups", .int s.unique),
    ("Num Removed", .int s.removed), ("% diff", .str percent.twoPlaces)]

end Statistics
end FlowCorpus.Dedup
