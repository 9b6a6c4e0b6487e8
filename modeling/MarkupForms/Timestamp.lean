/-!
# Days and moments

A timestamp is a day of the calendar or a moment of a day, which is known to the microsecond.  Days
are those of the years 1 to 9999, so there is a first and a last one.

* `Day.ofParts`, `Day.next?`, `Day.previous?` : the days of the calendar.
-/

namespace MarkupForms

/-- What can be wrong with the parts of a timestamp. -/
inductive TimestampFault where
  /-- There is no such year. -/
  | year (n : Nat)
  /-- There is no such month. -/
  | month
  /-- The month has no such day. -/
  | day
  /-- There is no such hour. -/
  | hour
  /-- There is no such minute. -/
  | minute
  /-- There is no such second. -/
  | second
  /-- The day is before the first one or after the last one. -/
  | beyond
deriving DecidableEq, Repr

/-- The message for a timestamp that cannot be had. -/
def TimestampFault.message : TimestampFault → String
  | .year n => s!"year {n} is out of range"
  | .month => "month must be in 1..12"
  | .day => "day is out of range for month"
  | .hour => "hour must be in 0..23"
  | .minute => "minute must be in 0..59"
  | .second => "second must be in 0..59"
  | .beyond => "date value out of range"

/-! ## The calendar -/

/-- Whether a year has a leap day. -/
def isLeap (year : Nat) : Bool :=
  year % 4 == 0 && (year % 100 != 0 || year % 400 == 0)

/-- How many days a month has. -/
def daysIn (year month : Nat) : Nat :=
  if month = 2 then
    if isLeap year then 29 else 28
  else if month = 4 ∨ month = 6 ∨ month = 9 ∨ month = 11 then 30
  else 31

/-- The last year. -/
def lastYear : Nat := 9999

/-- A day of the calendar. -/
structure Day where
  /-- The year. -/
  year : Nat
  /-- The month, from 1 to 12. -/
  month : Nat
  /-- The day of the month, from 1. -/
  day : Nat
deriving DecidableEq, Repr, Inhabited

namespace Day

/-- The day with the given parts. -/
def ofParts (year month day : Nat) : Except TimestampFault Day :=
  if year = 0 ∨ lastYear < year then .error (.year year)
  else if month = 0 ∨ 12 < month then .error .month
  else if day = 0 ∨ daysIn year month < day then .error .day
  else .ok ⟨year, month, day⟩

/-- The next day, if there is one. -/
def next? (d : Day) : Option Day :=
  if d.day < daysIn d.year d.month then some { d with day := d.day + 1 }
  else if d.month < 12 then some ⟨d.year, d.month + 1, 1⟩
  else if d.year < lastYear then some ⟨d.year + 1, 1, 1⟩
  else none

/-- The day before, if there is one. -/
def previous? (d : Day) : Option Day :=
  if 1 < d.day then some { d with day := d.day - 1 }
  else if 1 < d.month then some ⟨d.year, d.month - 1, daysIn d.year (d.month - 1)⟩
  else if 1 < d.year then some ⟨d.year - 1, 12, daysIn (d.year - 1) 12⟩
  else none

/-- The day that many days later. -/
def after? (d : Day) : Nat → Option Day
  | 0 => some d
  | n + 1 => d.next?.bind fun e => e.after? n

/-- The day that many days earlier. -/
def before? (d : Day) : Nat → Option Day
  | 0 => some d
  | n + 1 => d.previous?.bind fun e => e.before? n

end Day

/-! ## Moments -/

/-- A time of a day. -/
structure DayTime where
  /-- The hour. -/
  hour : Nat
  /-- The minute. -/
  minute : Nat
  /-- The second. -/
  second : Nat
  /-- The microsecond. -/
  micro : Nat
deriving DecidableEq, Repr, Inhabited

namespace DayTime

/-- The time with the given parts. -/
def ofParts (hour minute second micro : Nat) : Except TimestampFault DayTime :=
  if 23 < hour then .error .hour
  else if 59 < minute then .error .minute
  else if 59 < second then .error .second
  else .ok ⟨hour, minute, second, micro⟩

/-- How many whole seconds of the day are over. -/
def seconds (t : DayTime) : Nat :=
  (t.hour * 60 + t.minute) * 60 + t.second

/-- The time after some whole seconds of a day. -/
def ofSeconds (n micro : Nat) : DayTime :=
  ⟨n / 3600, n / 60 % 60, n % 60, micro⟩

end DayTime

/-- A day, or a moment of a day. -/
structure Timestamp where
  /-- The day. -/
  day : Day
  /-- The time of the day, for a moment. -/
  time : Option DayTime
deriving DecidableEq, Repr, Inhabited

namespace Timestamp

/-- How many seconds a day has. -/
def daySeconds : Nat := 86400

/-- The moment some seconds after a moment of a day. -/
def moment (d : Day) (t : DayTime) (shift : Int) : Except TimestampFault Timestamp :=
  let total := t.seconds + shift
  let days := total.fdiv daySeconds
  let day? := if 0 ≤ days then d.after? days.toNat else d.before? (-days).toNat
  match day? with
  | some day => .ok ⟨day, some (.ofSeconds (total.fmod daySeconds).toNat t.micro)⟩
  | none => .error .beyond

/-- The name of a timestamp's type in messages. -/
def typeName (t : Timestamp) : String :=
  if t.time.isSome then "datetime" else "date"

/-! ## Order -/

/-- The parts of a timestamp from the greatest to the least. -/
def parts (t : Timestamp) : List Nat :=
  [t.day.year, t.day.month, t.day.day] ++ match t.time with
    | some time => [time.hour, time.minute, time.second, time.micro]
    | none => []

/-- Whether the first timestamp is before the second one. -/
def less (t u : Timestamp) : Bool :=
  t.parts < u.parts

/-! ## Text -/

/-- A number with zeros in front. -/
def padded (width n : Nat) : String :=
  let digits := Nat.toDigits 10 n
  String.ofList (List.replicate (width - digits.length) '0' ++ digits)

/-- The text of a timestamp. -/
def toText (t : Timestamp) : String :=
  let d := t.day
  padded 4 d.year ++ "-" ++ padded 2 d.month ++ "-" ++ padded 2 d.day ++
    match t.time with
    | none => ""
    | some time =>
        " " ++ padded 2 time.hour ++ ":" ++ padded 2 time.minute ++ ":" ++ padded 2 time.second ++
          if time.micro = 0 then "" else "." ++ padded 6 time.micro

/-- The parts of a timestamp that a diagnostic shows: seconds and microseconds only up to the last
one that is not zero. -/
def shownParts (t : Timestamp) : List Nat :=
  [t.day.year, t.day.month, t.day.day] ++ match t.time with
    | some time =>
        [time.hour, time.minute] ++
          if time.micro ≠ 0 then [time.second, time.micro]
          else if time.second ≠ 0 then [time.second]
          else []
    | none => []

/-- A timestamp as diagnostics show it. -/
def display (t : Timestamp) : String :=
  s!"datetime.{t.typeName}(" ++ ", ".intercalate (t.shownParts.map toString) ++ ")"

end Timestamp

end MarkupForms
