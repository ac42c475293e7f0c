/-
  Harvest.Calendar.Date

  Days of the Gregorian calendar, extended to all years, and their count from 1970-01-01.
  Years are counted from March, so that the leap day ends a year: four hundred years are
  146097 days, a century of them 36524, four years 1461, a year 365, and of each the last
  one may be a day longer or shorter.
-/

namespace Harvest.Calendar

/-- A day of the calendar. -/
structure Date where
  year : Int
  month : Nat
  day : Nat
  deriving DecidableEq, Repr

/-- Whether a year has a leap day. -/
def isLeap (year : Int) : Bool :=
  year % 4 == 0 && (year % 100 != 0 || year % 400 == 0)

/-- The number of days of a month. -/
def daysInMonth (year : Int) (month : Nat) : Nat :=
  if month = 2 then (if isLeap year then 29 else 28)
  else if month = 4 ∨ month = 6 ∨ month = 9 ∨ month = 11 then 30 else 31

/-- Whether the calendar has the day. -/
def Date.isValid (d : Date) : Bool :=
  1 ≤ d.month && d.month ≤ 12 && 1 ≤ d.day && d.day ≤ daysInMonth d.year d.month

/-- The first year that a date may have. -/
def leastYear : Int := -262143

/-- The last year that a date may have. -/
def greatestYear : Int := 262142

/-- The day count of 0000-03-01, from which years are counted here. -/
def marchOfYearZero : Int := -719468

/-- The number of days from 1970-01-01 to a day. -/
def Date.toDays (d : Date) : Int :=
  let year := if d.month ≤ 2 then d.year - 1 else d.year
  let month := (d.month + 9) % 12
  let ofYear : Nat := (153 * month + 2) / 5 + (d.day - 1)
  marchOfYearZero + 365 * year + year / 4 - year / 100 + year / 400 + ofYear

/-- The day that lies `n` days after 1970-01-01. -/
def Date.ofDays (n : Int) : Date :=
  let days := n - marchOfYearZero
  let era := days / 146097
  let ofEra := (days % 146097).toNat
  let century := min (ofEra / 36524) 3
  let ofCentury := ofEra - century * 36524
  let four := ofCentury / 1461
  let ofFour := ofCentury - four * 1461
  let single := min (ofFour / 365) 3
  let ofYear := ofFour - single * 365
  let year := era * 400 + (century * 100 + four * 4 + single : Nat)
  let month := (5 * ofYear + 2) / 153
  let day := ofYear - (153 * month + 2) / 5 + 1
  if month < 10 then ⟨year, month + 3, day⟩ else ⟨year + 1, month - 9, day⟩

example : Date.toDays ⟨1970, 1, 1⟩ = 0 := by decide
example : Date.ofDays 19782 = ⟨2024, 2, 29⟩ := by decide
example : Date.ofDays (-719529) = ⟨-1, 12, 31⟩ := by decide

end Harvest.Calendar
