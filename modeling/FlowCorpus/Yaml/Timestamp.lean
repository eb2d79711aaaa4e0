import FlowCorpus.Number.Numeral
import FlowCorpus.Schema.Datum
import FlowCorpus.Text.Split
import FlowCorpus.Yaml.Source

/-!
# Timestamps

Days, and points in time on a day, in the form of the international standard for dates.
-/

set_option autoImplicit false

namespace FlowCorpus.Yaml

open FlowCorpus.Number FlowCorpus.Schema FlowCorpus.Text

/-- The time on a day as it is written. The offset of the zone is in seconds. -/
structure ClockText where
  hour : Nat
  minute : Nat
  second : Nat
  microsecond : Nat
  offset : Option Int

/-- A timestamp as it is written, whether its month and day have two digits, and its time. -/
structure TimestampText where
  year : Nat
  month : Nat
  day : Nat
  isFull : Bool
  clock : Option ClockText

/-- A number of some digits at the start of a text, of one digit fewer too if that is enough; and
the rest. -/
def digitGroup? (least most : Nat) (s : List Char) : Option (Nat × List Char) :=
  let digits := (s.take most).takeWhile isDigit
  if least ≤ digits.length then some (digitsValue digits, s.drop digits.length) else none

/-- A text after a character, which has to be there. -/
def afterChar? (c : Char) (s : List Char) : Option (List Char) :=
  if startsWith c s then some (s.drop 1) else none

/-- The millionths of a fraction of a second, of which no more than six digits count. -/
def microseconds (digits : List Char) : Nat :=
  let first := digits.take 6
  digitsValue (first ++ List.replicate (6 - first.length) '0')

/-- The offset of a zone at the end of a timestamp, which there may be none of. -/
def zoneOffset? (s : List Char) : Option (Option Int) :=
  match s.dropWhile isSpaceOrTab with
  | [] => if s.isEmpty then some none else none
  | ['Z'] => some (some 0)
  | c :: rest =>
    if c == '-' || c == '+' then do
      let (hours, rest) ← digitGroup? 1 2 rest
      let (minutes, rest) ← match rest with
        | ':' :: more => digitGroup? 2 2 more
        | rest => some (0, rest)
      if rest.isEmpty then
        some (some (withSign (c == '-') (hours * 3600 + minutes * 60)))
      else none
    else none

/-- The time at the end of a timestamp, which is set off by a letter or by spaces. -/
def clockText? (s : List Char) : Option ClockText := do
  let spaces := s.takeWhile isSpaceOrTab
  let s ← match s with
    | 'T' :: rest => some rest
    | 't' :: rest => some rest
    | s => if spaces.isEmpty then none else some (s.drop spaces.length)
  let (hour, s) ← digitGroup? 1 2 s
  let (minute, s) ← digitGroup? 2 2 (← afterChar? ':' s)
  let (second, s) ← digitGroup? 2 2 (← afterChar? ':' s)
  let fraction := if startsWith '.' s then (s.drop 1).takeWhile isDigit else []
  let s := if startsWith '.' s then s.drop (1 + fraction.length) else s
  let offset ← zoneOffset? s
  return ⟨hour, minute, second, microseconds fraction, offset⟩

def timestampText? (s : List Char) : Option TimestampText := do
  let (year, s) ← digitGroup? 4 4 s
  let (month, dayText) ← digitGroup? 1 2 (← afterChar? '-' s)
  let (day, clock) ← digitGroup? 1 2 (← afterChar? '-' dayText)
  let isFull := s.length == dayText.length + 3 && dayText.length == clock.length + 3
  if clock.isEmpty then return ⟨year, month, day, isFull, none⟩
  else return ⟨year, month, day, isFull, some (← clockText? clock)⟩

def isLeapYear (year : Nat) : Bool :=
  year % 4 == 0 && (year % 100 != 0 || year % 400 == 0)

def daysInMonth (year month : Nat) : Nat :=
  if month == 2 then if isLeapYear year then 29 else 28
  else if [4, 6, 9, 11].contains month then 30
  else 31

def TimestampText.date? (t : TimestampText) : Option Date :=
  if 1 ≤ t.year && 1 ≤ t.month && t.month ≤ 12 && 1 ≤ t.day &&
      t.day ≤ daysInMonth t.year t.month then
    some ⟨t.year, t.month, t.day⟩
  else none

/-- A point in time on a day, if there is one. A zone is less than a day away from universal time.
-/
def ClockText.moment? (c : ClockText) (date : Date) : Option Moment :=
  if c.hour < 24 && c.minute < 60 && c.second < 60 &&
      c.offset.all fun offset => -86400 < offset && offset < 86400 then
    some ⟨date, c.hour, c.minute, c.second, c.microsecond, c.offset⟩
  else none

def TimestampText.datum? (t : TimestampText) : Option Datum := do
  let date ← t.date?
  match t.clock with
  | none => return .date date
  | some clock => return .moment (← clock.moment? date)

end FlowCorpus.Yaml
