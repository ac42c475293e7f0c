/-
  Harvest.Proofs.Calendar.Years

  The years of a count of milliseconds. A day lies between the first of January of its year and
  that of the next one (`toDays_bounds`), and first days follow one another, so that bounds on the
  count of days are bounds on the year (`year_bounds`). A number of milliseconds between the
  beginnings of two years is an instant of the calendar between them (`exists_ofMillis?`).
-/
import Harvest.Calendar.Instant
import Harvest.Proofs.Calendar.Days

namespace Harvest.Calendar

/-! ## First days -/

/-- The number of days from 1970-01-01 to the first day of a year. -/
def firstDay (year : Int) : Int := Date.toDays ⟨year, 1, 1⟩

/-- The number of milliseconds from 1970-01-01T00:00:00Z to the beginning of a year. -/
def firstMilli (year : Int) : Int := firstDay year * 86400000

example : firstMilli 0 = -62167219200000 := by decide
example : firstMilli 10000 = 253402300800000 := by decide

/-- The first of January is three hundred and six days behind the first of March before it. -/
theorem firstDay_eq (year : Int) :
    firstDay year = marchOfYearZero + 365 * (year - 1) + (year - 1) / 4 - (year - 1) / 100 +
      (year - 1) / 400 + 306 := by
  simp [firstDay, Date.toDays]

theorem firstDay_le_of_le {y z : Int} (h : y ≤ z) : firstDay y ≤ firstDay z := by
  rw [firstDay_eq, firstDay_eq]
  omega

/-! ## The days of a year -/

/-- A day lies between the first day of its year and that of the next one. -/
theorem toDays_bounds {d : Date} (h : d.isValid = true) :
    firstDay d.year ≤ d.toDays ∧ d.toDays < firstDay (d.year + 1) := by
  obtain ⟨year, month, day⟩ := d
  obtain ⟨hmonth, hday⟩ := bounds_of_isValid h
  dsimp only at hmonth hday ⊢
  rw [firstDay_eq, firstDay_eq, Int.add_sub_cancel]
  unfold Date.toDays
  dsimp only
  -- January and February belong to the year that began in March before.
  by_cases hwinter : month ≤ 2
  · rw [if_pos hwinter]
    omega
  · rw [if_neg hwinter]
    omega

/-- A day of the calendar lies behind the first day of a year as its own year does. -/
theorem year_bounds {d : Date} (h : d.isValid = true) {least past : Int}
    (hleast : firstDay least ≤ d.toDays) (hpast : d.toDays < firstDay past) :
    least ≤ d.year ∧ d.year < past := by
  obtain ⟨hbegin, hend⟩ := toDays_bounds h
  constructor
  · apply Int.not_lt.mp
    intro hbefore
    have hnext := firstDay_le_of_le (show d.year + 1 ≤ least from hbefore)
    omega
  · apply Int.not_le.mp
    intro hbehind
    have hfirst := firstDay_le_of_le hbehind
    omega

/-! ## Milliseconds -/

/-- A number of milliseconds between the beginnings of two years is an instant of the years
    between them, as long as a date may have them. -/
theorem exists_ofMillis? {ms least past : Int} (hleast : firstMilli least ≤ ms)
    (hpast : ms < firstMilli past) (hfirst : leastYear ≤ least) (hlast : past ≤ greatestYear) :
    ∃ t, Instant.ofMillis? ms = some t ∧ least ≤ t.date.year ∧ t.date.year < past := by
  unfold firstMilli at hleast hpast
  have hrange : Instant.inRange (ms / 1000) = true := by
    have hbegin := firstDay_le_of_le hfirst
    have hend := firstDay_le_of_le hlast
    have hgreatest : Date.toDays ⟨greatestYear, 12, 31⟩ = firstDay greatestYear + 364 := by decide
    have hcalendar : Instant.leastSecond = firstDay leastYear * 86400 := rfl
    simp only [Instant.inRange, Instant.greatestSecond, hcalendar, hgreatest, Bool.and_eq_true,
      decide_eq_true_eq]
    omega
  refine ⟨⟨ms / 1000, (ms % 1000).toNat * 1000000⟩, if_pos hrange, ?_⟩
  apply year_bounds (isValid_ofDays _)
  · rw [toDays_ofDays]
    dsimp only
    omega
  · rw [toDays_ofDays]
    dsimp only
    omega

end Harvest.Calendar
