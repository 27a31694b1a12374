import Authorship.Decimal.Text

/- Moments in time as text, in the calendar of the standard ISO 8601 and in UTC. -/
namespace Authorship.Baseline

structure Instant where
  seconds : Int
  nanoseconds : Nat
deriving DecidableEq, Repr

structure CalendarDate where
  year : Int
  month : Nat
  day : Nat
deriving DecidableEq, Repr

def secondsPerDay : Int := 86400

/-- Counts years from March, so that the leap day is the last of its year, in periods of 400
years, which all have the same number of days. -/
def dateOfDay (daysSince1970 : Int) : CalendarDate :=
  let days := daysSince1970 + 719468
  let era := days.fdiv 146097
  let dayOfEra := (days.fmod 146097).toNat
  let yearOfEra := (dayOfEra - dayOfEra / 1460 + dayOfEra / 36524 - dayOfEra / 146096) / 365
  let dayOfYear := dayOfEra - (365 * yearOfEra + yearOfEra / 4 - yearOfEra / 100)
  let shifted := (5 * dayOfYear + 2) / 153
  let month := if shifted < 10 then shifted + 3 else shifted - 9
  { year := era * 400 + yearOfEra + (if month ≤ 2 then 1 else 0)
    month
    day := dayOfYear - (153 * shifted + 2) / 5 + 1 }

def paddedDigits (width n : Nat) : String :=
  let digits := Decimal.natText n
  String.ofList (List.replicate (width - digits.length) '0') ++ digits

/-- Four digits, with a sign where four do not suffice. -/
def yearText (year : Int) : String :=
  if 0 ≤ year && year ≤ 9999 then paddedDigits 4 year.natAbs
  else (if year < 0 then "-" else "+") ++ paddedDigits 4 year.natAbs

def fractionText (nanoseconds : Nat) : String :=
  if nanoseconds = 0 then ""
  else if nanoseconds % 1000000 = 0 then "." ++ paddedDigits 3 (nanoseconds / 1000000)
  else if nanoseconds % 1000 = 0 then "." ++ paddedDigits 6 (nanoseconds / 1000)
  else "." ++ paddedDigits 9 nanoseconds

def Instant.text (t : Instant) : String :=
  let date := dateOfDay (t.seconds.fdiv secondsPerDay)
  let second := (t.seconds.fmod secondsPerDay).toNat
  let two := paddedDigits 2
  yearText date.year ++ "-" ++ two date.month ++ "-" ++ two date.day ++ "T" ++
    two (second / 3600) ++ ":" ++ two (second / 60 % 60) ++ ":" ++ two (second % 60) ++
    fractionText t.nanoseconds ++ "+00:00"

end Authorship.Baseline
