/-
# Dates of the Gregorian calendar

A moment is given in seconds since the beginning of 1970, without leap seconds, and shown as
date and time of day in the Gregorian calendar, which is carried on before its introduction.
Years run from -262143 to 262142.
-/
import Swarm.Text.Numeral

namespace Swarm.Calendar

/-- A date; the year before year 1 is year 0. -/
structure Date where
  year : Int
  month : Nat
  day : Nat
  deriving DecidableEq, Repr

/-- The date of a day, counted from the first of January 1970.

The days are counted from the first of March of the year 0 instead, so that a leap day is the
last day of its year; 400 years have 146097 days. -/
def dateOfDay (day : Int) : Date :=
  let z := day + 719468
  let era := z.fdiv 146097
  let dayOfEra := (z.fmod 146097).toNat
  let yearOfEra := (dayOfEra - dayOfEra / 1460 + dayOfEra / 36524 - dayOfEra / 146096) / 365
  let dayOfYear := dayOfEra - (365 * yearOfEra + yearOfEra / 4 - yearOfEra / 100)
  let shifted := (5 * dayOfYear + 2) / 153
  let month := if shifted < 10 then shifted + 3 else shifted - 9
  { year := era * 400 + yearOfEra + (if month ≤ 2 then 1 else 0)
    month
    day := dayOfYear - (153 * shifted + 2) / 5 + 1 }

/-- The text of a year: four digits from 0 to 9999, else a sign and at least four digits. -/
def yearText (year : Int) : String :=
  let digits := String.ofList (Text.padZero 4 (Nat.toDigits 10 year.natAbs))
  if 0 ≤ year && year ≤ 9999 then digits
  else (if year < 0 then "-" else "+") ++ digits

/-- Two digits. -/
def twoDigits (n : Nat) : String := String.ofList (Text.padZero 2 (Nat.toDigits 10 n))

/-- The text of a moment, if its year is within the calendar. -/
def momentText? (seconds : Int64) : Option String :=
  let day := seconds.toInt.fdiv 86400
  let second := (seconds.toInt.fmod 86400).toNat
  let date := dateOfDay day
  if -262143 ≤ date.year && date.year ≤ 262142 then
    some (yearText date.year ++ "-" ++ twoDigits date.month ++ "-" ++ twoDigits date.day ++ " " ++
      twoDigits (second / 3600) ++ ":" ++ twoDigits (second / 60 % 60) ++ ":" ++
      twoDigits (second % 60) ++ " UTC")
  else none

end Swarm.Calendar
