import FlowCorpus.Assembly.Disassembly

/-!
# Normalized ESIL

One expression of the intermediate language in canonical form: a literal in front of a comma
becomes a word for what it is, and on request registers become masks of their width and blanks
take the place of the commas.
-/

set_option autoImplicit false

namespace FlowCorpus.Assembly

open FlowCorpus.Text

def highOperandRule : Rule := fun s =>
  match highDigits? s with
  | some n =>
    if (s.drop (highMark.length + n)).head? == some ',' then
      some (highMark.length + n + 1, "IMM,".toList)
    else none
  | none => none

def decimalRule (replacement : String) : Rule := fun s =>
  let n := (s.takeWhile isDigit).length
  if 4 ≤ n && (s.drop n).head? == some ',' then some (n + 1, replacement.toList ++ [','])
  else none

/-- What a long decimal literal stands for: a function in a call, data in any other
instruction. -/
def decimalWord (kind : String) : String :=
  if kind = "call" then "FUNC" else "DATA"

def esilRules (kind : String) : List Rule :=
  [highOperandRule, closedLiteral 1 (some 3) ',' "IMM", closedLiteral 4 none ',' "MEM",
    decimalRule (decimalWord kind)]

def maskOperand (token : List Char) : List Char :=
  let name := String.ofList token
  if registers32.contains name || riscvRegisters.contains name then "reg32".toList
  else if registers64.contains name then "reg64".toList
  else token

def normalizeExpression (kind : String) (s : List Char) : List Char :=
  substituteAll (esilRules kind) s

/-- One expression of an instruction of the given kind in canonical form, its registers masked on
request. -/
def normalizeEsil (text kind : String) (maskRegisters : Bool) : String :=
  let line := normalizeExpression kind text.toList
  String.ofList (if maskRegisters then join [' '] ((tokens ',' line).map maskOperand) else line)

end FlowCorpus.Assembly
