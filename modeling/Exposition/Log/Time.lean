/-!
# Times of log entries

The time of an entry is written as a date and a time of day in UTC with microseconds, in the form
`2024-01-02T03:04:05.678901Z`.  Days are counted from March on, so that the leap day is the last
day of a year, in eras of 400 years, after which the calendar repeats.
-/

namespace Exposition

/-- A day of the calendar. -/
structure CivilDate where
  year : Int
  month : Nat
  day : Nat
  deriving DecidableEq

/-- Days in 400 years of the calendar. -/
def daysPerEra : Int := 146097

/-- The year within an era, given the day within the era. -/
def yearOfEra (day : Nat) : Nat := (day - day / 1460 + day / 36524 - day / 146096) / 365

/-- The date of a day counted from the first of January 1970. -/
def CivilDate.ofDays (days : Int) : CivilDate :=
  let sinceMarch := days + 719468
  let era := sinceMarch.fdiv daysPerEra
  let dayOfEra := (sinceMarch.fmod daysPerEra).toNat
  let year := yearOfEra dayOfEra
  let dayOfYear := dayOfEra - (365 * year + year / 4 - year / 100)
  let monthFromMarch := (5 * dayOfYear + 2) / 153
  let day := dayOfYear - (153 * monthFromMarch + 2) / 5 + 1
  let month := if monthFromMarch < 10 then monthFromMarch + 3 else monthFromMarch - 9
  ⟨year + era * 400 + (if month ≤ 2 then 1 else 0), month, day⟩

/-- A number with zeros in front of it up to a width. -/
def padded (width n : Nat) : String :=
  let digits := Nat.toDigits 10 n
  String.ofList (List.replicate (width - digits.length) '0' ++ digits)

/-- The text of a time given in microseconds since the start of 1970. -/
def timeText (micros : Int) : String :=
  let seconds := micros.fdiv 1000000
  let date := CivilDate.ofDays (seconds.fdiv 86400)
  let time := (seconds.fmod 86400).toNat
  padded 4 date.year.toNat ++ "-" ++ padded 2 date.month ++ "-" ++ padded 2 date.day ++ "T"
    ++ padded 2 (time / 3600) ++ ":" ++ padded 2 (time / 60 % 60) ++ ":" ++ padded 2 (time % 60)
    ++ "." ++ padded 6 (micros.fmod 1000000).toNat ++ "Z"

end Exposition
