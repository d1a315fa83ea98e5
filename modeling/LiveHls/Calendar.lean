import LiveHls.Binary64

/-!
# Points in time as civil dates

`Instant.text` prints an instant as a date and a time of day in UTC with six decimals. Days are
counted in the proleptic Gregorian calendar, in eras of 400 years that start in March, so that
the leap day is the last day of a year.
-/

namespace LiveHls

/-- A point in time: whole seconds since 1970 in UTC and nanoseconds beyond them. A leap second is
written as the second before it with a thousand million nanoseconds or more. -/
structure Instant where
  seconds : Int
  nanos : Nat
deriving DecidableEq, Repr

structure CivilDate where
  year : Int
  month : Nat
  day : Nat
deriving DecidableEq, Repr

namespace CivilDate

def daysPerEra : Nat := 146097

/-- The date `days` days after the first of January 1970. -/
def ofDays (days : Int) : CivilDate :=
  -- day 0 of era 0 is the first of March of year 0
  let shifted := days + 719468
  let era := shifted.fdiv daysPerEra
  let dayOfEra := (shifted - era * daysPerEra).toNat
  let yearOfEra := (dayOfEra - dayOfEra / 1460 + dayOfEra / 36524 - dayOfEra / 146096) / 365
  let dayOfYear := dayOfEra - (365 * yearOfEra + yearOfEra / 4 - yearOfEra / 100)
  let monthFromMarch := (5 * dayOfYear + 2) / 153
  let day := dayOfYear - (153 * monthFromMarch + 2) / 5 + 1
  let month := if monthFromMarch < 10 then monthFromMarch + 3 else monthFromMarch - 9
  let year := (yearOfEra : Int) + era * 400
  ⟨if month ≤ 2 then year + 1 else year, month, day⟩

/-- Four digits; a year before 0 or after 9999 carries its sign. -/
def yearText (year : Int) : String :=
  if year < 0 then "-" ++ Dyadic.padded 4 year.natAbs
  else if year ≤ 9999 then Dyadic.padded 4 year.natAbs
  else "+" ++ toString year.natAbs

example : ofDays 0 = ⟨1970, 1, 1⟩ := by decide
example : ofDays (-1) = ⟨1969, 12, 31⟩ := by decide
example : ofDays 11016 = ⟨2000, 2, 29⟩ := by decide

end CivilDate

namespace Instant

def secondsPerDay : Nat := 86400

/-- Date and time of day with six decimals, the nanoseconds cut off below a microsecond. -/
def text (t : Instant) : String :=
  let days := t.seconds.fdiv secondsPerDay
  let date := CivilDate.ofDays days
  let clock := (t.seconds - days * secondsPerDay).toNat
  let two := Dyadic.padded 2
  CivilDate.yearText date.year ++ "-" ++ two date.month ++ "-" ++ two date.day ++ "T"
    ++ two (clock / 3600) ++ ":" ++ two (clock / 60 % 60) ++ ":"
    ++ two (clock % 60 + t.nanos / 1000000000) ++ "."
    ++ Dyadic.padded 6 (t.nanos % 1000000000 / 1000) ++ "Z"

end Instant

end LiveHls
