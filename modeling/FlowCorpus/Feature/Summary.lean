import FlowCorpus.Feature.Count

/-!
# Function summaries

The average and the sum of every TikNib count over the blocks of a function.
-/

set_option autoImplicit false

namespace FlowCorpus.Feature

open FlowCorpus.Assembly FlowCorpus.Json FlowCorpus.Number FlowCorpus.Program

def summarySums (a : Architecture) (f : Function) : List Nat :=
  sumRows 7 (f.blocks.map (tiknibCounts a))

/-- The averages of counts over a number of blocks; all are zero without blocks. -/
def averagesOf (sums : List Nat) (blocks : Nat) : List Binary64 :=
  sums.map fun sum => if blocks = 0 then Binary64.ofNat 0 else Binary64.ofRatio false sum blocks

def markedFields (mark : String) (values : List Binary64) : Fields :=
  (tiknibFields.zip values).map fun (name, value) => (mark ++ name, .float value)

def summary (a : Architecture) (f : Function) : Value :=
  let sums := summarySums a f
  .obj [("name", .str f.name),
    ("features", .obj (markedFields "avg_" (averagesOf sums f.blocks.length) ++
      markedFields "sum_" (sums.map Binary64.ofNat)))]

end FlowCorpus.Feature
