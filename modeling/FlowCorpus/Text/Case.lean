/-!
# Letter case

Folding of names to lower and to upper case, as far as names in ASCII can tell: a character whose
folded form is not ASCII is in no such name, whatever it folds to.
-/

set_option autoImplicit false

namespace FlowCorpus.Text

/-- The lower-case form of a letter. The Kelvin sign is the one character outside ASCII whose
lower-case form is in it. -/
def lower (c : Char) : Char :=
  if 0x41 ≤ c.toNat && c.toNat ≤ 0x5a then Char.ofNat (c.toNat + 0x20)
  else if c.toNat == 0x212a then 'k'
  else c

/-- The upper-case form of a letter. The characters outside ASCII whose upper-case form is in it
are the sharp s, the dotless i, the long s and the ligatures of f and of s. -/
def upper (c : Char) : List Char :=
  let n := c.toNat
  if 0x61 ≤ n && n ≤ 0x7a then [Char.ofNat (n - 0x20)]
  else if n == 0xdf then ['S', 'S']
  else if n == 0x131 then ['I']
  else if n == 0x17f then ['S']
  else if n == 0xfb00 then ['F', 'F']
  else if n == 0xfb01 then ['F', 'I']
  else if n == 0xfb02 then ['F', 'L']
  else if n == 0xfb03 then ['F', 'F', 'I']
  else if n == 0xfb04 then ['F', 'F', 'L']
  else if n == 0xfb05 || n == 0xfb06 then ['S', 'T']
  else [c]

end FlowCorpus.Text
