import Mathlib.Data.List.Basic
import FlowCorpus.Assembly.Esil

/-!
# Register names and masks

Register names are made of small letters and digits, so that a text with any other character is
none, and no mask is one.
-/

set_option autoImplicit false

namespace FlowCorpus.Assembly

open FlowCorpus.Text

def registerNames : List String :=
  framePointers ++ registers32 ++ registers64 ++ riscvRegisters

def isPlain (c : Char) : Bool :=
  isLower c || isDigit c

theorem all_plain_of_mem {name : String} (member : name ∈ registerNames) :
    name.toList.all isPlain = true := by
  have every : registerNames.all (·.toList.all isPlain) = true := by decide +kernel
  exact List.all_eq_true.mp every name member

theorem not_mem_of_not_plain {token : List Char} {c : Char} (here : c ∈ token)
    (other : isPlain c = false) : String.ofList token ∉ registerNames := by
  intro member
  have plain := List.all_eq_true.mp (all_plain_of_mem member) c (by rwa [String.toList_ofList])
  rw [other] at plain
  cases plain

theorem contains_eq_false {names : List String} {token : List Char}
    (names_subset : names ⊆ registerNames) (none : String.ofList token ∉ registerNames) :
    names.contains (String.ofList token) = false := by
  rw [← Bool.not_eq_true, List.contains_iff_mem]
  exact fun member => none (names_subset member)

theorem framePointers_subset : framePointers ⊆ registerNames := fun _ member => by
  simp [registerNames, member]

theorem registers32_subset : registers32 ⊆ registerNames := fun _ member => by
  simp [registerNames, member]

theorem registers64_subset : registers64 ⊆ registerNames := fun _ member => by
  simp [registerNames, member]

theorem riscvRegisters_subset : riscvRegisters ⊆ registerNames := fun _ member => by
  simp [registerNames, member]

/-! ## Operands of expressions -/

/-- What is no register stays. -/
theorem maskOperand_of_not_mem {token : List Char} (none : String.ofList token ∉ registerNames) :
    maskOperand token = token := by
  unfold maskOperand
  simp only [contains_eq_false registers32_subset none, contains_eq_false registers64_subset none,
    contains_eq_false riscvRegisters_subset none]
  rfl

theorem maskOperand_cases (token : List Char) :
    maskOperand token = "reg32".toList ∨ maskOperand token = "reg64".toList ∨
      maskOperand token = token := by
  unfold maskOperand
  grind

theorem maskOperand_maskOperand (token : List Char) :
    maskOperand (maskOperand token) = maskOperand token := by
  rcases maskOperand_cases token with mask | mask | same
  · rw [mask]
    exact maskOperand_of_not_mem (by decide +kernel)
  · rw [mask]
    exact maskOperand_of_not_mem (by decide +kernel)
  · rw [same, same]

end FlowCorpus.Assembly
