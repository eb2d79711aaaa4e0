/-!
# Blank characters

White space in the Unicode sense, and the trimming and word splitting that follow from it.
-/

set_option autoImplicit false

namespace FlowCorpus.Text

/-- White space: the Unicode space separators, the line and paragraph separators, the ASCII
control characters from tab to carriage return, and the four ASCII information separators. -/
def isBlank (c : Char) : Bool :=
  let n := c.toNat
  (0x09 ≤ n && n ≤ 0x0d) || (0x1c ≤ n && n ≤ 0x20) || n == 0x85 || n == 0xa0 || n == 0x1680 ||
    (0x2000 ≤ n && n ≤ 0x200a) || n == 0x2028 || n == 0x2029 || n == 0x202f || n == 0x205f ||
    n == 0x3000

def trimStartOf (drop : Char → Bool) (s : List Char) : List Char :=
  s.dropWhile drop

def trimOf (drop : Char → Bool) (s : List Char) : List Char :=
  (((s.dropWhile drop).reverse).dropWhile drop).reverse

def trim (s : List Char) : List Char :=
  trimOf isBlank s

/-- The first maximal run of characters that are not blank; empty when there is none. -/
def firstWord (s : List Char) : List Char :=
  (trimStartOf isBlank s).takeWhile fun c => !isBlank c

def isAsciiBlank (c : Char) : Bool :=
  c.toNat == 0x20 || (0x09 ≤ c.toNat && c.toNat ≤ 0x0d)

end FlowCorpus.Text
