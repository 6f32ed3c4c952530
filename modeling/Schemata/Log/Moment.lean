/-
  Moments of the Gregorian calendar in UTC, in the two forms that log lines show.

  * `civil` is the year, month and day of a number of days since the first of March of the year 0;
    years are counted from March, so that the leap day is the last one of its year;
  * `ofUnix` is the moment of a number of microseconds since 1970.
-/
import Schemata.Number.Rounding

namespace Schemata.Log

open Number (padded)

/-- A moment, in the two forms that lines show it. -/
structure Moment where
  /-- The full form with fraction and zone. -/
  full : String
  /-- The form up to the second. -/
  short : String
deriving DecidableEq, Repr

namespace Moment

/-- The days in 400 years. -/
def daysPerEra : Nat := 146097

/-- The days from the first of March of the year 0 to the first of January 1970. -/
def unixStart : Nat := 719468

/-- The year, month and day of a day, counted from the first of March of the year 0. -/
def civil (days : Nat) : Nat × Nat × Nat :=
  let day := days % daysPerEra
  let year := (day - day / 1460 + day / 36524 - day / 146096) / 365
  let dayOfYear := day - (365 * year + year / 4 - year / 100)
  let month := (5 * dayOfYear + 2) / 153
  let dayOfMonth := dayOfYear - (153 * month + 2) / 5 + 1
  let inNextYear := 10 ≤ month
  (days / daysPerEra * 400 + year + (if inNextYear then 1 else 0),
    if inNextYear then month - 9 else month + 3, dayOfMonth)

example : civil unixStart = (1970, 1, 1) := by decide
example : civil (unixStart + 59) = (1970, 3, 1) := by decide
example : civil (unixStart + 19782) = (2024, 2, 29) := by decide
example : civil (unixStart + 47540) = (2100, 2, 28) := by decide
example : civil (unixStart + 47541) = (2100, 3, 1) := by decide

/-- The moment of a number of microseconds since 1970; a fraction of zero is left out. -/
def ofUnix (micros : Nat) : Moment :=
  let seconds := micros / 1000000
  let fraction := micros % 1000000
  let (year, month, day) := civil (unixStart + seconds / 86400)
  let date := padded 4 year ++ "-" ++ padded 2 month ++ "-" ++ padded 2 day
  let time := padded 2 (seconds / 3600 % 24) ++ ":" ++ padded 2 (seconds / 60 % 60) ++ ":" ++
    padded 2 (seconds % 60)
  { full := date ++ "T" ++ time ++ (if fraction = 0 then "" else "." ++ padded 6 fraction) ++
      "+00:00"
    short := date ++ " " ++ time }

end Moment

end Schemata.Log
