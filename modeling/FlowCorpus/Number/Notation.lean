import FlowCorpus.Number.Shortest

/-!
# Number texts

The text of a double in its shortest decimal digits, and with exactly two decimal places.
-/

set_option autoImplicit false

namespace FlowCorpus.Number

def natDigits (n : Nat) : List Char :=
  Nat.toDigits 10 n

def intText (n : Int) : String :=
  String.ofList (if n < 0 then '-' :: natDigits n.natAbs else natDigits n.natAbs)

def hexText (n : Int) : String :=
  String.ofList ((if n < 0 then ['-'] else []) ++ '0' :: 'x' :: Nat.toDigits 16 n.natAbs)

structure Layout where
  /-- The least power of ten of a leading digit that is written positionally. -/
  leastPositional : Int
  /-- The first power of ten that is written with an exponent. -/
  firstExponential : Int
  /-- The least number of digits of an exponent. -/
  exponentWidth : Nat

def layout : Layout := ⟨-4, 16, 2⟩

/-- Digits with the point after the first `whole` of them; at least one digit on both sides. -/
def positional (digits : List Char) (whole : Int) : List Char :=
  if whole ≤ 0 then
    '0' :: '.' :: (List.replicate (-whole).toNat '0' ++ digits)
  else
    let before := digits.take whole.toNat
    let fill := List.replicate (whole.toNat - digits.length) '0'
    let after := digits.drop whole.toNat
    before ++ fill ++ '.' :: (if after.isEmpty then ['0'] else after)

def exponential (l : Layout) (digits : List Char) (power : Int) : List Char :=
  let fraction := match digits.drop 1 with
    | [] => []
    | rest => '.' :: rest
  let exponent := natDigits power.natAbs
  digits.take 1 ++ fraction ++ ['e', if power < 0 then '-' else '+'] ++
    List.replicate (l.exponentWidth - exponent.length) '0' ++ exponent

def magnitudeText (l : Layout) (significand : Nat) (exponent : Int) : List Char :=
  if significand = 0 then ['0', '.', '0']
  else
    let decimal := shortest significand exponent
    let digits := natDigits decimal.digits
    let power := decimal.power + digits.length - 1
    if l.leastPositional ≤ power && power < l.firstExponential then
      positional digits (power + 1)
    else exponential l digits power

structure SpecialTexts where
  nan : String
  infinity : String

namespace Binary64

/-- The text of a double: its shortest digits, or the given text of a number that is not finite. -/
def text (special : SpecialTexts) : Binary64 → String
  | .nan => special.nan
  | .infinite negative => if negative then "-" ++ special.infinity else special.infinity
  | .finite negative significand exponent =>
    let magnitude := magnitudeText layout significand exponent
    String.ofList (if negative then '-' :: magnitude else magnitude)

def plain (x : Binary64) : String :=
  x.text ⟨"nan", "inf"⟩

/-- The number of hundredths nearest to a magnitude, a tie going to the even neighbour. -/
def hundredths (significand : Nat) (exponent : Int) : Nat :=
  let value := Fraction.scaled (significand * 100) exponent
  divNearestEven value.numerator value.denominator

def twoPlaces : Binary64 → String
  | .nan => "nan"
  | .infinite negative => if negative then "-inf" else "inf"
  | .finite negative significand exponent =>
    let count := hundredths significand exponent
    let cents := natDigits (count % 100)
    String.ofList ((if negative then ['-'] else []) ++ natDigits (count / 100) ++ '.' ::
      (List.replicate (2 - cents.length) '0' ++ cents))

end Binary64
end FlowCorpus.Number
