import Treeline.Numeral

/-!
# Calendar dates and moments

Dates of the Gregorian calendar from year 1 to year 9999, and moments of a day to the microsecond,
with or without an offset from universal time. Both are written in ISO form.
-/

namespace Treeline

/-- Why numbers do not make a date or a moment. -/
inductive CalendarProblem
  | year (year : Nat)
  | month
  | day
  | hour
  | minute
  | second
  /-- The offset, in seconds, is a whole day or more. -/
  | offset (seconds : Int)
  deriving DecidableEq

/-- A day of the calendar. -/
structure Date where
  year : Nat
  month : Nat
  day : Nat
  deriving DecidableEq

/-- A point of time on a day. The offset from universal time is in seconds. -/
structure Moment where
  date : Date
  hour : Nat
  minute : Nat
  second : Nat
  microsecond : Nat
  offset : Option Int
  deriving DecidableEq

namespace Date

def isLeapYear (year : Nat) : Bool :=
  year % 4 == 0 && (year % 100 != 0 || year % 400 == 0)

def daysInMonth (year month : Nat) : Nat :=
  match month with
  | 2 => if isLeapYear year then 29 else 28
  | 4 | 6 | 9 | 11 => 30
  | _ => 31

def ofNumbers (year month day : Nat) : Except CalendarProblem Date :=
  if year < 1 ∨ 9999 < year then .error (.year year)
  else if month < 1 ∨ 12 < month then .error .month
  else if day < 1 ∨ daysInMonth year month < day then .error .day
  else .ok ⟨year, month, day⟩

/-- The number of days from the first day of year 1, which is day 1. -/
def ordinal (d : Date) : Nat :=
  let y := d.year - 1
  let before := (List.range (d.month - 1)).foldl (fun n m => n + daysInMonth d.year (m + 1)) 0
  y * 365 + y / 4 - y / 100 + y / 400 + before + d.day

/-- The ISO form, `2024-02-29`. -/
def iso (d : Date) : List Char :=
  Numeral.padded 4 d.year ++ '-' :: Numeral.padded 2 d.month ++ '-' :: Numeral.padded 2 d.day

/-- The form that messages use. -/
def shown (d : Date) : String :=
  "datetime.date(" ++ Numeral.text d.year ++ ", " ++ Numeral.text d.month ++ ", "
    ++ Numeral.text d.day ++ ")"

end Date

/-- A length of time in the form that messages use: whole days, which may be negative, and the
seconds of the day that remain. -/
def shownSpan (seconds : Int) : String :=
  let days := Int.fdiv seconds 86400
  let rest := Int.fmod seconds 86400
  let parts :=
    (if days = 0 then [] else ["days=" ++ Numeral.intText days])
      ++ (if rest = 0 then [] else ["seconds=" ++ Numeral.intText rest])
  "datetime.timedelta(" ++ (if parts.isEmpty then "0" else ", ".intercalate parts) ++ ")"

namespace CalendarProblem

def message : CalendarProblem → String
  | .year y => "year " ++ Numeral.text y ++ " is out of range"
  | .month => "month must be in 1..12"
  | .day => "day is out of range for month"
  | .hour => "hour must be in 0..23"
  | .minute => "minute must be in 0..59"
  | .second => "second must be in 0..59"
  | .offset s =>
    "offset must be a timedelta strictly between -timedelta(hours=24) and timedelta(hours=24), not "
      ++ shownSpan s ++ "."

end CalendarProblem

namespace Moment

/-- An offset from universal time; it is shorter than a day. -/
def checkOffset (seconds : Int) : Except CalendarProblem Int :=
  if seconds.natAbs < 86400 then .ok seconds else .error (.offset seconds)

def ofNumbers (date : Date) (hour minute second microsecond : Nat) (offset : Option Int) :
    Except CalendarProblem Moment :=
  if 23 < hour then .error .hour
  else if 59 < minute then .error .minute
  else if 59 < second then .error .second
  else .ok ⟨date, hour, minute, second, microsecond, offset⟩

/-- An offset in ISO form; its seconds are left out when they are zero. -/
def isoOffset (seconds : Int) : List Char :=
  let n := seconds.natAbs
  (if seconds < 0 then '-' else '+') :: Numeral.padded 2 (n / 3600)
    ++ ':' :: Numeral.padded 2 (n / 60 % 60)
    ++ (if n % 60 = 0 then [] else ':' :: Numeral.padded 2 (n % 60))

/-- The ISO form with a space between date and time. A fraction has six digits and is left out when
it is zero. -/
def iso (m : Moment) : List Char :=
  m.date.iso ++ ' ' :: Numeral.padded 2 m.hour ++ ':' :: Numeral.padded 2 m.minute
    ++ ':' :: Numeral.padded 2 m.second
    ++ (if m.microsecond = 0 then [] else '.' :: Numeral.padded 6 m.microsecond)
    ++ (match m.offset with | none => [] | some s => isoOffset s)

/-- The form that messages use. Seconds and fraction are left out when they are zero. -/
def shown (m : Moment) : String :=
  let fields := [m.date.year, m.date.month, m.date.day, m.hour, m.minute]
    ++ (if m.microsecond ≠ 0 then [m.second, m.microsecond]
        else if m.second ≠ 0 then [m.second] else [])
  let zone := match m.offset with
    | none => ""
    | some 0 => ", tzinfo=datetime.timezone.utc"
    | some s => ", tzinfo=datetime.timezone(" ++ shownSpan s ++ ")"
  "datetime.datetime(" ++ ", ".intercalate (fields.map Numeral.text) ++ zone ++ ")"

/-- Microseconds from the start of year 1, in universal time if there is an offset. -/
def instant (m : Moment) : Int :=
  ((m.date.ordinal * 86400 + m.hour * 3600 + m.minute * 60 + m.second : Nat) - m.offset.getD 0)
    * 1000000 + m.microsecond

end Moment

end Treeline
