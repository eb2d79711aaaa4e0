import FlowCorpus.Fault
import FlowCorpus.Json.Basic
import FlowCorpus.Number.Numeral

/-!
# Addresses and counts in records

Records give an address as a number or as text. One that is missing, unreadable or out of range is
marked as no address, so that reading an address never fails. A count that cannot be read becomes a
default, except that an infinite one is refused.
-/

set_option autoImplicit false

namespace FlowCorpus.Program

open FlowCorpus.Json FlowCorpus.Number

def noAddress : Int := -1

/-- The first integer that is too large for an address, which has sixty-four bits. -/
def addressLimit : Int := 18446744073709551616

def addressOfInt (n : Int) : Int :=
  if 0 ≤ n ∧ n < addressLimit then n else noAddress

/-- A value as an address: an integer, a double without a fraction, or a text in base ten or with
its base in front. -/
def addressOf : Value → Int
  | .int n => addressOfInt n
  | .str (.whole s) => ((readBasedInt? s.toList).map addressOfInt).getD noAddress
  | .float x => if x.isIntegral then (x.toInt?.map addressOfInt).getD noAddress else noAddress
  | _ => noAddress

/-- A value as a count: an integer, a double without its fraction, or a text in base ten; the
default stands for anything else. -/
def countOf (default : Int) : Value → Except Fault Int
  | .int n => .ok n
  | .float (.infinite _) => .error .infiniteInteger
  | .float x => .ok (x.toInt?.getD default)
  | .str (.whole s) => .ok ((readInt? s.toList).getD default)
  | _ => .ok default

theorem addressOfInt_eq_or (n : Int) :
    addressOfInt n = noAddress ∨ (0 ≤ addressOfInt n ∧ addressOfInt n < addressLimit) := by
  unfold addressOfInt
  split
  · exact .inr (by assumption)
  · exact .inl rfl

end FlowCorpus.Program
