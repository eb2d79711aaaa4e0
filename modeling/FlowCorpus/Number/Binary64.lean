/-!
# Double-precision numbers

A double-precision number is a sign and a significand times a power of two, an infinity, or not a
number. Every operation is the exact operation on rationals followed by one rounding to the
nearest double, a tie going to the even significand.
-/

set_option autoImplicit false

namespace FlowCorpus.Number

/-- A double-precision number. The numbers that rounding produces have a significand below `2 ^ 53`
and an exponent from `-1074` to `971`, and a significand of at least `2 ^ 52` above the least
exponent. -/
inductive Binary64 where
  | nan
  | infinite (negative : Bool)
  | finite (negative : Bool) (significand : Nat) (exponent : Int)
deriving DecidableEq, Repr, Inhabited

/-- The quotient rounded to the nearest natural number, a half going to the even neighbour. -/
def divNearestEven (n d : Nat) : Nat :=
  let q := n / d
  let r := n % d
  if 2 * r < d then q
  else if d < 2 * r then q + 1
  else if q % 2 = 0 then q
  else q + 1

def powerOfTwo (n : Nat) : Nat :=
  Nat.pow 2 n

def powerOfTen (n : Nat) : Nat :=
  Nat.pow 10 n

namespace Binary64

def minExponent : Int := -1074

def maxExponent : Int := 971

/-- Zero with the given sign. -/
def signedZero (negative : Bool) : Binary64 :=
  .finite negative 0 minExponent

/-- The fraction `n / d` divided by a power of two, as numerator and denominator. -/
def scaleDown (n d : Nat) (exponent : Int) : Nat × Nat :=
  if 0 ≤ exponent then (n, d * powerOfTwo exponent.toNat)
  else (n * powerOfTwo (-exponent).toNat, d)

/-- The exponent at which the significand of `n / d` has fifty-three digits, or the least one. -/
def exponentFor (n d : Nat) : Int :=
  let guess : Int := (Nat.log2 n : Int) - (Nat.log2 d : Int) - 52
  let (n', d') := scaleDown n d guess
  max (if n' / d' < powerOfTwo 52 then guess - 1 else guess) minExponent

def ofRatio (negative : Bool) (n d : Nat) : Binary64 :=
  if n = 0 then signedZero negative
  else
    let exponent := exponentFor n d
    let (n', d') := scaleDown n d exponent
    let significand := divNearestEven n' d'
    let (significand, exponent) :=
      if significand = powerOfTwo 53 then (powerOfTwo 52, exponent + 1) else (significand, exponent)
    if maxExponent < exponent then .infinite negative
    else .finite negative significand exponent

def ofScaled (negative : Bool) (significand : Nat) (exponent : Int) : Binary64 :=
  if 0 ≤ exponent then ofRatio negative (significand * powerOfTwo exponent.toNat) 1
  else ofRatio negative significand (powerOfTwo (-exponent).toNat)

/-- The double nearest to `digits * 10 ^ exponent`. Magnitudes far outside the range of doubles are
decided from the number of digits alone. -/
def ofDecimal (negative : Bool) (digits : Nat) (exponent : Int) : Binary64 :=
  if digits = 0 then signedZero negative
  else
    let size : Int := (Nat.toDigits 10 digits).length + exponent
    if 320 < size then .infinite negative
    else if size < -340 then signedZero negative
    else if 0 ≤ exponent then ofRatio negative (digits * powerOfTen exponent.toNat) 1
    else ofRatio negative digits (powerOfTen (-exponent).toNat)

def ofInt (n : Int) : Binary64 :=
  ofRatio (n < 0) n.natAbs 1

def ofNat (n : Nat) : Binary64 :=
  ofRatio false n 1

/-- The double nearest to the quotient of two integers, the divisor not being zero. A quotient
beyond the greatest double is infinite. -/
def ofIntRatio (n d : Int) : Binary64 :=
  ofRatio ((n < 0) != (d < 0)) n.natAbs d.natAbs

def isFinite : Binary64 → Bool
  | .finite .. => true
  | _ => false

/-- Zero of either sign. -/
def isZero : Binary64 → Bool
  | .finite _ significand _ => significand == 0
  | _ => false

/-- The magnitude of a finite number as an integer, what lies after the point dropped. -/
def truncated (significand : Nat) (exponent : Int) : Nat :=
  if 0 ≤ exponent then significand * powerOfTwo exponent.toNat
  else significand / powerOfTwo (-exponent).toNat

/-- Whether a finite number has nothing after the point. -/
def isIntegral : Binary64 → Bool
  | .finite _ significand exponent =>
    0 ≤ exponent || significand % powerOfTwo (-exponent).toNat == 0
  | _ => false

/-- The integer part of a finite number, rounding toward zero. -/
def toInt? : Binary64 → Option Int
  | .finite negative significand exponent =>
    let magnitude : Int := truncated significand exponent
    some (if negative then -magnitude else magnitude)
  | _ => none

def signed (negative : Bool) (significand : Nat) : Int :=
  if negative then -(significand : Int) else significand

/-- The sum. Opposite infinities have none; an exact zero is negative only when both terms are. -/
def add : Binary64 → Binary64 → Binary64
  | .nan, _ => .nan
  | _, .nan => .nan
  | .infinite s, .infinite t => if s = t then .infinite s else .nan
  | .infinite s, .finite .. => .infinite s
  | .finite .., .infinite t => .infinite t
  | .finite s m e, .finite t n f =>
    let exponent := min e f
    let sum := signed s (m * powerOfTwo (e - exponent).toNat) +
      signed t (n * powerOfTwo (f - exponent).toNat)
    if sum = 0 then signedZero (s && t) else ofScaled (sum < 0) sum.natAbs exponent

/-- The product. Zero times an infinity has none. -/
def mul : Binary64 → Binary64 → Binary64
  | .nan, _ => .nan
  | _, .nan => .nan
  | .infinite s, .infinite t => .infinite (s != t)
  | .infinite s, .finite t n _ => if n = 0 then .nan else .infinite (s != t)
  | .finite s m _, .infinite t => if m = 0 then .nan else .infinite (s != t)
  | .finite s m e, .finite t n f => ofScaled (s != t) (m * n) (e + f)

/-- The quotient by a natural number that is not zero. -/
def divNat (x : Binary64) (n : Nat) : Binary64 :=
  match x with
  | .nan => .nan
  | .infinite s => .infinite s
  | .finite s m e =>
    if 0 ≤ e then ofRatio s (m * powerOfTwo e.toNat) n
    else ofRatio s m (n * powerOfTwo (-e).toNat)

/-- Numeric equality: zeros of both signs are equal. Not a number equals itself here, since every
reading of it yields one and the same value. -/
def numericEq (x y : Binary64) : Bool :=
  (x.isZero && y.isZero) || x == y

end Binary64
end FlowCorpus.Number
