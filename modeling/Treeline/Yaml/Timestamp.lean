import Treeline.Calendar
import Treeline.Text.Hex
import Treeline.Yaml.Character

/-!
# Points of time in documents

A point of time is written as a date, or as a date and a time of day behind a letter T or blanks. A
fraction of a second and an offset from universal time may follow. A date alone is recognised only
if month and day have two digits.
-/

namespace Treeline.Yaml

/-- The numbers that a point of time is written with. -/
structure Clock where
  hour : Nat
  minute : Nat
  second : Nat
  /-- The digits of the fraction. -/
  fraction : List Char
  /-- Whether the offset is negative, and its hours and minutes. -/
  offset : Option (Bool × Nat × Nat)
  deriving DecidableEq

/-- A date and perhaps a time of day, as they are written. -/
structure Timestamp where
  year : Nat
  month : Nat
  day : Nat
  clock : Option Clock
  /-- Whether month and day have two digits. -/
  isPadded : Bool
  deriving DecidableEq

namespace Timestamp

/-- A number of at least `least` and at most `most` digits, how many they are, and the rest. -/
def digits? (least most : Nat) (cs : List Char) : Option (Nat × Nat × List Char) :=
  let digits := (cs.take most).takeWhile isDigit
  if digits.length < least then none
  else some (Numeral.value digits, digits.length, cs.drop digits.length)

/-- The text behind a character. -/
def behind? (c : Char) : List Char → Option (List Char)
  | x :: rest => if x = c then some rest else none
  | [] => none

/-- The offset that a text consists of. `Z` is no offset at all from universal time. -/
def offset? : List Char → Option (Bool × Nat × Nat)
  | ['Z'] => some (false, 0, 0)
  | sign :: rest =>
    if sign = '+' ∨ sign = '-' then do
      let (hours, _, rest) ← digits? 1 2 rest
      if rest.isEmpty then return (sign = '-', hours, 0)
      let (minutes, _, rest) ← digits? 2 2 (← behind? ':' rest)
      if rest.isEmpty then return (sign = '-', hours, minutes) else none
    else none
  | [] => none

/-- The time of day that a text consists of, without what stands before it. -/
def clock? (cs : List Char) : Option Clock := do
  let (hour, _, rest) ← digits? 1 2 cs
  let (minute, _, rest) ← digits? 2 2 (← behind? ':' rest)
  let (second, _, rest) ← digits? 2 2 (← behind? ':' rest)
  let (fraction, rest) := match rest with
    | '.' :: rest => (rest.takeWhile isDigit, rest.dropWhile isDigit)
    | rest => ([], rest)
  if rest.isEmpty then return ⟨hour, minute, second, fraction, none⟩
  let offset ← offset? (rest.dropWhile isBlank)
  return ⟨hour, minute, second, fraction, some offset⟩

/-- What stands between a date and a time of day is dropped. -/
def afterDate? : List Char → Option (List Char)
  | 'T' :: rest | 't' :: rest => some rest
  | c :: rest => if isBlank c then some (rest.dropWhile isBlank) else none
  | [] => none

/-- The point of time that a text consists of. -/
def parse? (cs : List Char) : Option Timestamp := do
  let (year, _, rest) ← digits? 4 4 cs
  let (month, m, rest) ← digits? 1 2 (← behind? '-' rest)
  let (day, d, rest) ← digits? 1 2 (← behind? '-' rest)
  let isPadded := m = 2 && d = 2
  if rest.isEmpty then return ⟨year, month, day, none, isPadded⟩
  return ⟨year, month, day, some (← clock? (← afterDate? rest)), isPadded⟩

/-- Whether plain text of this form is a point of time without being tagged as one. -/
def isRecognised (t : Timestamp) : Bool := t.isPadded || t.clock.isSome

/-- The microseconds that the digits of a fraction stand for; further digits do not count. -/
def microseconds (fraction : List Char) : Nat :=
  let digits := fraction.take 6
  Numeral.value (digits ++ List.replicate (6 - digits.length) '0')

end Timestamp

/-- A date, or a moment on it. -/
inductive TimePoint
  | date (date : Date)
  | moment (moment : Moment)
  deriving DecidableEq

/-- The point of time that some numbers name. -/
def Timestamp.resolve (t : Timestamp) : Except CalendarProblem TimePoint := do
  match t.clock with
  | none => return .date (← Date.ofNumbers t.year t.month t.day)
  | some clock =>
    let offset ← match clock.offset with
      | none => pure none
      | some (isNegative, hours, minutes) =>
        let seconds : Int := hours * 3600 + minutes * 60
        some <$> Moment.checkOffset (if isNegative then -seconds else seconds)
    let date ← Date.ofNumbers t.year t.month t.day
    return .moment (← Moment.ofNumbers date clock.hour clock.minute clock.second
      (Timestamp.microseconds clock.fraction) offset)

end Treeline.Yaml
