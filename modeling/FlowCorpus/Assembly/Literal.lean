import FlowCorpus.Text.Digit
import FlowCorpus.Text.Substitute

/-!
# Literals in instruction text

Recognisers of hexadecimal and decimal literals, shared by the rules for disassembly and for
intermediate expressions.
-/

set_option autoImplicit false

namespace FlowCorpus.Assembly

open FlowCorpus.Text

def hexRun (s : List Char) : Nat :=
  (s.takeWhile isHexDigit).length

def afterHexMark? : List Char → Option (List Char)
  | '0' :: 'x' :: rest => some rest
  | '0' :: 'X' :: rest => some rest
  | _ => none

/-- The mark of a large immediate value: an address with all high bits set. -/
def highMark : List Char := "0xffff".toList

/-- The number of digits after the mark of a large immediate value, when there is any. -/
def highDigits? (s : List Char) : Option Nat :=
  match highMark.isPrefixOf? s with
  | some rest => if 1 ≤ hexRun rest then some (hexRun rest) else none
  | none => none

/-- A hexadecimal literal of `least` to `most` digits, without a bound when `most` is absent, that
ends right before the character; the two become the replacement and that character. -/
def closedLiteral (least : Nat) (most : Option Nat) (close : Char) (replacement : String) : Rule :=
  fun s =>
    match afterHexMark? s with
    | some rest =>
      let n := hexRun rest
      if least ≤ n && most.all (n ≤ ·) && (rest.drop n).head? == some close then
        some (n + 3, replacement.toList ++ [close])
      else none
    | none => none

end FlowCorpus.Assembly
