import FlowCorpus.Number.Binary64

/-!
# Shortest decimal digits

The fewest decimal digits that read back as a given double. Of the decimals with so few digits the
nearest is taken, and of two equally near ones the one with an even last digit.
-/

set_option autoImplicit false

namespace FlowCorpus.Number

structure Fraction where
  numerator : Nat
  denominator : Nat

namespace Fraction

def scaled (significand : Nat) (exponent : Int) : Fraction :=
  if 0 ≤ exponent then ⟨significand * powerOfTwo exponent.toNat, 1⟩
  else ⟨significand, powerOfTwo (-exponent).toNat⟩

def timesPowerOfTen (x : Fraction) (power : Int) : Fraction :=
  if 0 ≤ power then ⟨x.numerator * powerOfTen power.toNat, x.denominator⟩
  else ⟨x.numerator, x.denominator * powerOfTen (-power).toNat⟩

/-- The least number of factors of ten, from `count` on, that lift the fraction to one or more. -/
def liftToOne (x : Fraction) : Nat → Nat → Nat
  | 0, count => count
  | fuel + 1, count =>
    if x.denominator ≤ x.numerator * powerOfTen count then count
    else liftToOne x fuel (count + 1)

def leadingPower (x : Fraction) : Int :=
  if x.denominator ≤ x.numerator then
    ((Nat.toDigits 10 (x.numerator / x.denominator)).length : Int) - 1
  else -(liftToOne x 400 1 : Int)

end Fraction

structure Decimal where
  digits : Nat
  power : Int
deriving DecidableEq, Repr

/-- The decimals that read back as one double: those from `low` to `high`, in quarters of a unit of
its last place, the ends included when the significand is even. -/
structure RoundingInterval where
  low : Nat
  center : Nat
  high : Nat
  closed : Bool
  exponent : Int

namespace RoundingInterval

/-- The interval of a double. Below a power of two the neighbours are half as far apart. -/
def ofDouble (significand : Nat) (exponent : Int) : RoundingInterval where
  low := 4 * significand -
    (if significand = powerOfTwo 52 && Binary64.minExponent < exponent then 1 else 2)
  center := 4 * significand
  high := 4 * significand + 2
  closed := significand % 2 = 0
  exponent := exponent - 2

/-- Whether `n * step` lies in the interval, where the step is a fraction of its unit. -/
def contains (i : RoundingInterval) (step : Fraction) (n : Nat) : Bool :=
  let point := n * step.numerator
  if i.closed then
    i.low * step.denominator ≤ point && point ≤ i.high * step.denominator
  else
    i.low * step.denominator < point && point < i.high * step.denominator

/-- The unit `10 ^ power` as a fraction of the interval's unit `2 ^ exponent`. -/
def step (i : RoundingInterval) (power : Int) : Fraction :=
  (Fraction.scaled 1 (-i.exponent)).timesPowerOfTen power

/-- The multiple of `10 ^ power` in the interval that is nearest to its center. -/
def nearest? (i : RoundingInterval) (power : Int) : Option Nat :=
  let unit := i.step power
  let target := i.center * unit.denominator
  let below := target / unit.numerator
  let rest := target % unit.numerator
  let nearer := if 2 * rest < unit.numerator then below
    else if unit.numerator < 2 * rest then below + 1
    else if below % 2 = 0 then below
    else below + 1
  let farther := if nearer = below then below + 1 else below
  if i.contains unit nearer then some nearer
  else if i.contains unit farther then some farther
  else none

/-- The first grid, of those with `fuel` more digits, that has a point in the interval. -/
def search (i : RoundingInterval) : Nat → Int → Decimal
  | 0, power => ⟨(i.nearest? power).getD 0, power⟩
  | fuel + 1, power =>
    match i.nearest? power with
    | some digits => ⟨digits, power⟩
    | none => search i fuel (power - 1)

end RoundingInterval

/-- The shortest decimal that reads back as `significand * 2 ^ exponent`. The first grid is one
power above the leading digit, where a number just below a power of ten has that power as its text.
-/
def shortest (significand : Nat) (exponent : Int) : Decimal :=
  let i := RoundingInterval.ofDouble significand exponent
  i.search 17 ((Fraction.scaled significand exponent).leadingPower + 1)

end FlowCorpus.Number
