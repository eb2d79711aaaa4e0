import FlowCorpus.Fault

/-!
# Batch reports

What came of the items of a batch: how many were processed, skipped and failed.
-/

set_option autoImplicit false

namespace FlowCorpus.Batch

/-- What came of one item. -/
inductive Outcome where
  | processed
  | skipped
  | failed
deriving DecidableEq, Repr

namespace Outcome

def parse (name : String) : Except Fault Outcome :=
  if name = "processed" then .ok .processed
  else if name = "skipped" then .ok .skipped
  else if name = "failed" then .ok .failed
  else .error (.notAChoice name .outcome)

end Outcome

/-- The numbers of items by outcome. A report that is merged to take items back has negative ones.
-/
structure Report where
  processed : Int := 0
  skipped : Int := 0
  failed : Int := 0
deriving DecidableEq, Repr

namespace Report

def record (report : Report) : Outcome → Report
  | .processed => { report with processed := report.processed + 1 }
  | .skipped => { report with skipped := report.skipped + 1 }
  | .failed => { report with failed := report.failed + 1 }

/-- The report with some numbers, in the order of the outcomes; those not given are zero. -/
def ofCounts : List Int → Except Fault Report
  | [] => .ok {}
  | [processed] => .ok { processed }
  | [processed, skipped] => .ok { processed, skipped }
  | [processed, skipped, failed] => .ok { processed, skipped, failed }
  | _ => .error .wrongType

def merge (a b : Report) : Report :=
  ⟨a.processed + b.processed, a.skipped + b.skipped, a.failed + b.failed⟩

def sum (reports : List Report) : Report :=
  reports.foldl merge {}

def total (report : Report) : Int :=
  report.processed + report.skipped + report.failed

def ofOutcomes (outcomes : List Outcome) : Report :=
  outcomes.foldl record {}

theorem total_record (report : Report) (outcome : Outcome) :
    (report.record outcome).total = report.total + 1 := by
  cases outcome <;> simp [record, total] <;> omega

theorem total_merge (a b : Report) : (a.merge b).total = a.total + b.total := by
  simp [merge, total]
  omega

end Report
end FlowCorpus.Batch
