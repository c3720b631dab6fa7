/-!
# The calendar

Proleptic Gregorian dates and their day numbers. Years are counted from March, so that a leap day
ends its year, in eras of 400 years, which all have the same number of days.
-/

namespace Tabula

/-- A date of the proleptic Gregorian calendar. -/
structure Date where
  year : Int
  month : Nat
  day : Nat
deriving DecidableEq

namespace Date

def isLeapYear (year : Int) : Bool :=
  year % 4 = 0 && (year % 100 ≠ 0 || year % 400 = 0)

/-- The number of days of a month; a number that is no month has none. -/
def daysInMonth (year : Int) (month : Nat) : Nat :=
  match month with
  | 1 | 3 | 5 | 7 | 8 | 10 | 12 => 31
  | 4 | 6 | 9 | 11 => 30
  | 2 => if isLeapYear year then 29 else 28
  | _ => 0

/-- Whether the calendar has the date. -/
def Exists (d : Date) : Prop :=
  1 ≤ d.day ∧ d.day ≤ daysInMonth d.year d.month

instance (d : Date) : Decidable d.Exists := by
  unfold Exists; infer_instance

/-- The day number of 1970-01-01, counted from 0000-03-01. -/
def epoch : Int := 719468

/-- The days between 1970-01-01 and the date. -/
def toDays (d : Date) : Int :=
  let marchYear := if d.month ≤ 2 then d.year - 1 else d.year
  let marchMonth : Int := if d.month ≤ 2 then d.month + 9 else d.month - 3
  let era := marchYear.fdiv 400
  let yearOfEra := marchYear.fmod 400
  let dayOfYear := (153 * marchMonth + 2) / 5 + d.day - 1
  era * 146097 + (yearOfEra * 365 + yearOfEra / 4 - yearOfEra / 100 + dayOfYear) - epoch

/-- The date that many days after 1970-01-01. -/
def ofDays (days : Int) : Date :=
  let n := days + epoch
  let era := n.fdiv 146097
  let dayOfEra := n.fmod 146097
  let yearOfEra :=
    (dayOfEra - dayOfEra / 1460 + dayOfEra / 36524 - dayOfEra / 146096) / 365
  let dayOfYear := dayOfEra - (365 * yearOfEra + yearOfEra / 4 - yearOfEra / 100)
  let marchMonth := (5 * dayOfYear + 2) / 153
  let day := dayOfYear - (153 * marchMonth + 2) / 5 + 1
  let month := if marchMonth < 10 then marchMonth + 3 else marchMonth - 9
  let year := yearOfEra + era * 400 + (if month ≤ 2 then 1 else 0)
  ⟨year, month.toNat, day.toNat⟩

end Date

end Tabula
