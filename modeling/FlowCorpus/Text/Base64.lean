import FlowCorpus.Text.Digit

/-!
# Base sixty-four

Bytes written with sixty-four characters, each of which stands for six bits. Other characters are
skipped, and an equals sign fills up the last group of four.
-/

set_option autoImplicit false

namespace FlowCorpus.Text

def sixtyFourth? (c : Char) : Option Nat :=
  let n := c.toNat
  if 0x41 ≤ n && n ≤ 0x5a then some (n - 0x41)
  else if 0x61 ≤ n && n ≤ 0x7a then some (n - 0x61 + 26)
  else if isDigit c then some (n - 0x30 + 52)
  else if c == '+' then some 62
  else if c == '/' then some 63
  else none

/-- The byte of two neighbours in a group, of which the second stands at a position of its group. -/
def groupByte (position before value : Nat) : UInt8 :=
  match position with
  | 1 => UInt8.ofNat (before * 4 + value / 16)
  | 2 => UInt8.ofNat (before * 16 + value / 4)
  | _ => UInt8.ofNat (before * 64 + value)

/-- The bytes of a text from a position of a group on. `before` is the value of the character
before, and `fills` the number of equals signs since. There are none when the last group is not
filled up. -/
def base64From (position before fills : Nat) : List Char → Option (List UInt8)
  | [] => if position = 0 then some [] else none
  | c :: rest =>
    match sixtyFourth? c with
    | some value =>
      let next := base64From ((position + 1) % 4) value 0 rest
      if position = 0 then next else next.map (groupByte position before value :: ·)
    | none =>
      if c == '=' && 2 ≤ position then
        if 4 ≤ position + fills + 1 then some []
        else base64From position before (fills + 1) rest
      else base64From position before fills rest

def base64Bytes? (s : List Char) : Option (List UInt8) :=
  base64From 0 0 0 s

end FlowCorpus.Text
