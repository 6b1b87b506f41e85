import DrillCycles.Text.Basic

/-!
# Instants and dates

An **`Instant`** counts seconds from the start of the year 1970 in universal time, and nanoseconds
within the second.  A count of nanoseconds beyond one second marks a leap second, which is possible
only in the last second of a minute.

Dates are those of the Gregorian calendar, also before its introduction.  They repeat every four
hundred years; **`Date.ofDays`** counts inside such a period from the first of March, so that the leap
day comes last.
-/

namespace DrillCycles

/-- A point in time. -/
structure Instant where
  /-- Seconds since the start of 1970 in universal time. -/
  seconds : Int
  /-- Nanoseconds within the second; from a whole second on, within the leap second after it. -/
  nanos : Nat := 0
  deriving DecidableEq, Repr

/-- A day of the Gregorian calendar. -/
structure Date where
  year : Int
  /-- The month, from one. -/
  month : Nat
  /-- The day of the month, from one. -/
  day : Nat
  deriving DecidableEq, Repr

namespace Date

/-- The days in four hundred years. -/
def daysPerPeriod : Nat := 146097

/-- The days from the first of March of the year zero to the start of 1970. -/
def epochOffset : Nat := 719468

/-- The year within a period of four hundred, years starting in March, for a day of the period. -/
def yearOfPeriod (day : Nat) : Nat :=
  (day - day / 1460 + day / 36524 - day / 146096) / 365

/-- The date that lies the given number of days after the start of 1970. -/
def ofDays (days : Int) : Date :=
  let shifted := days + epochOffset
  let period := shifted.fdiv daysPerPeriod
  let dayOfPeriod := (shifted.fmod daysPerPeriod).toNat
  let year := yearOfPeriod dayOfPeriod
  let dayOfYear := dayOfPeriod - (365 * year + year / 4 - year / 100)
  let march := (5 * dayOfYear + 2) / 153
  let month := if march < 10 then march + 3 else march - 9
  { year := year + period * 400 + if month ≤ 2 then 1 else 0
    month := month
    day := dayOfYear - (153 * march + 2) / 5 + 1 }

end Date

namespace Instant

/-- The seconds of a day. -/
def secondsPerDay : Nat := 86400

/-- The first second that can be told. -/
def firstSecond : Int := -8334601228800

/-- The last second that can be told. -/
def lastSecond : Int := 8210266876799

/-- The instant with these counts, if there is one. -/
def ofUnix? (seconds : Int) (nanos : Nat) : Option Instant :=
  if firstSecond ≤ seconds && seconds ≤ lastSecond &&
      (nanos < 1000000000 || (nanos < 2000000000 && seconds.fmod 60 == 59))
  then some ⟨seconds, nanos⟩ else none

/-- The date of an instant. -/
def date (t : Instant) : Date :=
  .ofDays (t.seconds.fdiv secondsPerDay)

/-- The seconds since midnight. -/
def secondOfDay (t : Instant) : Nat :=
  (t.seconds.fmod secondsPerDay).toNat

/-- The day of the week, from Sunday as zero. -/
def weekday (t : Instant) : Nat :=
  ((t.seconds.fdiv secondsPerDay + 4).fmod 7).toNat

/-- A number with zeros in front of it up to the given width. -/
def padded (width n : Nat) : Text :=
  let digits := Text.ofNat n
  List.replicate (width - digits.length) '0' ++ digits

/-- A year in at least four digits, with a sign when it is not between zero and 9999. -/
def yearText (year : Int) : Text :=
  if year < 0 then '-' :: padded 4 year.natAbs
  else if 9999 < year then '+' :: padded 4 year.natAbs
  else padded 4 year.natAbs

/-- The names of the days of the week, in three letters. -/
def weekdayNames : List String :=
  ["Sun", "Mon", "Tue", "Wed", "Thu", "Fri", "Sat"]

/-- The names of the months, in three letters. -/
def monthNames : List String :=
  ["Jan", "Feb", "Mar", "Apr", "May", "Jun", "Jul", "Aug", "Sep", "Oct", "Nov", "Dec"]

/-- The entry of a list of names at a place, and nothing outside of it. -/
def nameAt (names : List String) (place : Nat) : Text :=
  (names.getD place "").toList

/-- The second within the minute; a leap second is the sixtieth. -/
def secondOfMinute (t : Instant) : Nat :=
  t.secondOfDay % 60 + t.nanos / 1000000000

/-- Weekday, date and time of an instant in universal time. -/
def text (t : Instant) : Text :=
  let date := t.date
  nameAt weekdayNames t.weekday ++ ", ".toList ++ padded 2 date.day ++ [' '] ++
    nameAt monthNames (date.month - 1) ++ [' '] ++ yearText date.year ++ [' '] ++
    padded 2 (t.secondOfDay / 3600) ++ [':'] ++ padded 2 (t.secondOfDay / 60 % 60) ++ [':'] ++
    padded 2 t.secondOfMinute

end Instant

end DrillCycles
