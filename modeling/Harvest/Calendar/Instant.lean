/-
  Harvest.Calendar.Instant

  Points in time, to the nanosecond. A leap second is the second before it with a fraction
  of one second or more, so that an instant keeps the text it was read from.
-/
import Harvest.Calendar.Date

namespace Harvest.Calendar

/-- A point in time: whole seconds since 1970-01-01T00:00:00Z, leap seconds not counted,
    and nanoseconds, up to two thousand million of them in a leap second. -/
structure Instant where
  seconds : Int
  nanos : Nat
  deriving DecidableEq, Repr

namespace Instant

/-- Whether one instant is not later than another. -/
def le (a b : Instant) : Bool :=
  a.seconds < b.seconds || (a.seconds == b.seconds && a.nanos ≤ b.nanos)

/-- The number of whole milliseconds since 1970-01-01T00:00:00Z. -/
def toMillis (t : Instant) : Int := t.seconds * 1000 + (t.nanos / 1000000 : Nat)

/-- The first second of the years that a date may have. -/
def leastSecond : Int := Date.toDays ⟨leastYear, 1, 1⟩ * 86400

/-- The last second of the years that a date may have. -/
def greatestSecond : Int := Date.toDays ⟨greatestYear, 12, 31⟩ * 86400 + 86399

/-- Whether a second lies in the years that a date may have. -/
def inRange (seconds : Int) : Bool := leastSecond ≤ seconds && seconds ≤ greatestSecond

/-- The instant that lies `ms` milliseconds after 1970-01-01T00:00:00Z, if its year is one
    that a date may have. -/
def ofMillis? (ms : Int) : Option Instant :=
  let seconds := ms / 1000
  if inRange seconds then some ⟨seconds, (ms % 1000).toNat * 1000000⟩ else none

/-- The day of an instant. -/
def date (t : Instant) : Date := .ofDays (t.seconds / 86400)

/-- The second of its day at which an instant lies. -/
def secondOfDay (t : Instant) : Nat := (t.seconds % 86400).toNat

theorem le_refl (t : Instant) : t.le t = true := by simp [le]

theorem le_total (a b : Instant) : a.le b = true ∨ b.le a = true := by
  simp only [le, Bool.or_eq_true, Bool.and_eq_true, decide_eq_true_eq, beq_iff_eq]
  omega

theorem le_trans {a b c : Instant} (h : a.le b = true) (k : b.le c = true) :
    a.le c = true := by
  simp only [le, Bool.or_eq_true, Bool.and_eq_true, decide_eq_true_eq, beq_iff_eq] at *
  omega

theorem ofMillis?_toMillis {ms : Int} {t : Instant} (h : ofMillis? ms = some t) :
    t.toMillis = ms := by
  simp only [ofMillis?] at h
  split at h
  · cases h
    simp only [toMillis]
    omega
  · cases h

end Instant
end Harvest.Calendar
