/-
  Harvest.Proofs.Calendar.Days

  The count of days and the calendar agree. A day count falls apart into whole eras, whole
  centuries, whole spans of four years, whole years and the days of a year; the parts tell the
  year, and a year has a day more only where the calendar has a leap day.
-/
import Harvest.Calendar.Date

namespace Harvest.Calendar

/-- The parts of a day count from 0000-03-01 on. A part is the last one of the part above it
    only where that one lasts a day longer. -/
structure DayParts (days : Int) (era : Int) (century four single ofYear : Nat) : Prop where
  sum : days = era * 146097 + century * 36524 + four * 1461 + single * 365 + ofYear
  century_le : century ≤ 3
  four_le : four ≤ 24
  single_le : single ≤ 3
  ofYear_le : ofYear ≤ 365
  /-- Only the last year of four has a leap day, and the last four years of a century only in
      the last century. -/
  leap : ofYear = 365 → single = 3 ∧ (four = 24 → century = 3)

namespace DayParts

variable {days era : Int} {century four single ofYear : Nat}

/-- The year, counted from March. -/
def year (era : Int) (century four single : Nat) : Int :=
  era * 400 + (century * 100 + four * 4 + single : Nat)

theorem year_div_four (h : DayParts days era century four single ofYear) :
    year era century four single / 4 = era * 100 + century * 25 + four := by
  have hsingle := h.single_le
  unfold year
  omega

theorem year_div_hundred (h : DayParts days era century four single ofYear) :
    year era century four single / 100 = era * 4 + century := by
  have hsingle := h.single_le
  have hfour := h.four_le
  unfold year
  omega

theorem year_div_fourHundred (h : DayParts days era century four single ofYear) :
    year era century four single / 400 = era := by
  have hsingle := h.single_le
  have hfour := h.four_le
  have hcentury := h.century_le
  unfold year
  omega

/-- The last day of a year that has 366 is the leap day of the next one. -/
theorem isLeap_next (h : DayParts days era century four single ofYear) (hlast : ofYear = 365) :
    isLeap (year era century four single + 1) = true := by
  obtain ⟨hsingle, hcentury⟩ := h.leap hlast
  have hfour := h.four_le
  have hcentury_le := h.century_le
  have hquarter : (year era century four single + 1) % 4 = 0 := by
    unfold year
    omega
  unfold isLeap
  rw [hquarter]
  by_cases hend : four = 24
  · have hera : (year era century four single + 1) % 400 = 0 := by
      have hthree := hcentury hend
      unfold year
      omega
    rw [hera]
    simp
  · have hhundred : (year era century four single + 1) % 100 ≠ 0 := by
      unfold year
      omega
    simp [hhundred]

end DayParts

/-- The parts that a day count falls apart into. -/
theorem dayParts (days : Int) :
    let ofEra := (days % 146097).toNat
    let century := min (ofEra / 36524) 3
    let ofCentury := ofEra - century * 36524
    let four := ofCentury / 1461
    let ofFour := ofCentury - four * 1461
    let single := min (ofFour / 365) 3
    DayParts days (days / 146097) century four single (ofFour - single * 365) := by
  intro ofEra century ofCentury four ofFour single
  have hofEra : ofEra < 146097 ∧ days = days / 146097 * 146097 + ofEra := by omega
  have hcentury : century ≤ 3 ∧ century * 36524 ≤ ofEra ∧
      (ofEra < century * 36524 + 36524 ∨ century = 3) := by omega
  have hofCentury : ofEra = century * 36524 + ofCentury ∧ ofCentury ≤ 36524 ∧
      (ofCentury = 36524 → century = 3) := by omega
  have hfour : four ≤ 24 ∧ ofCentury = four * 1461 + ofFour ∧ ofFour ≤ 1460 := by omega
  have hsingle : single ≤ 3 ∧ single * 365 ≤ ofFour ∧
      (ofFour < single * 365 + 365 ∨ single = 3) := by omega
  refine ⟨?_, hcentury.1, hfour.1, hsingle.1, ?_, ?_⟩
  · omega
  · omega
  · intro hlast
    refine ⟨by omega, ?_⟩
    intro hend
    omega

/-- The day of a year that is counted from March. -/
def dayOfYear (year : Int) (ofYear : Nat) : Date :=
  let month := (5 * ofYear + 2) / 153
  let day := ofYear - (153 * month + 2) / 5 + 1
  if month < 10 then ⟨year, month + 3, day⟩ else ⟨year + 1, month - 9, day⟩

/-- The day lies so many days into its year. -/
theorem toDays_dayOfYear (year : Int) {ofYear : Nat} (h : ofYear ≤ 365) :
    (dayOfYear year ofYear).toDays =
      marchOfYearZero + 365 * year + year / 4 - year / 100 + year / 400 + ofYear := by
  unfold dayOfYear
  have hmonth : (5 * ofYear + 2) / 153 ≤ 11 := by omega
  have hstart : (153 * ((5 * ofYear + 2) / 153) + 2) / 5 ≤ ofYear := by omega
  generalize (5 * ofYear + 2) / 153 = month at hmonth hstart
  dsimp only
  by_cases hten : month < 10
  · rw [if_pos hten]
    have hspring : ¬ month + 3 ≤ 2 := by omega
    have hshift : (month + 3 + 9) % 12 = month := by omega
    unfold Date.toDays
    dsimp only
    rw [if_neg hspring, hshift]
    omega
  · rw [if_neg hten]
    have hwinter : month - 9 ≤ 2 := by omega
    have hshift : (month - 9 + 9) % 12 = month := by omega
    unfold Date.toDays
    dsimp only
    rw [if_pos hwinter, hshift, Int.add_sub_cancel]
    omega

/-- The calendar has the day, if a last day of 366 is a leap day. -/
theorem isValid_dayOfYear {year : Int} {ofYear : Nat} (h : ofYear ≤ 365)
    (hleap : ofYear = 365 → isLeap (year + 1) = true) :
    (dayOfYear year ofYear).isValid = true := by
  unfold dayOfYear
  have hmonth : (5 * ofYear + 2) / 153 ≤ 11 := by omega
  have hdays : ofYear = (153 * ((5 * ofYear + 2) / 153) + 2) / 5 +
      (ofYear - (153 * ((5 * ofYear + 2) / 153) + 2) / 5) := by omega
  have hend : 5 * ofYear + 2 < 153 * ((5 * ofYear + 2) / 153) + 153 := by omega
  dsimp only
  generalize (5 * ofYear + 2) / 153 = month at hmonth hdays hend ⊢
  generalize hday : ofYear - (153 * month + 2) / 5 = day at hdays ⊢
  by_cases hten : month < 10
  · rw [if_pos hten]
    have hfeb : ¬ month + 3 = 2 := by omega
    have hdaysInMonth : day + 1 ≤ daysInMonth year (month + 3) := by
      unfold daysInMonth
      rw [if_neg hfeb]
      split
      · omega
      · omega
    simp only [Date.isValid, Bool.and_eq_true, decide_eq_true_eq]
    exact ⟨⟨⟨by omega, by omega⟩, by omega⟩, hdaysInMonth⟩
  · rw [if_neg hten]
    have hdaysInMonth : day + 1 ≤ daysInMonth (year + 1) (month - 9) := by
      unfold daysInMonth
      by_cases hfeb : month - 9 = 2
      · rw [if_pos hfeb]
        by_cases hlast : ofYear = 365
        · rw [if_pos (hleap hlast)]
          omega
        · split
          · omega
          · omega
      · rw [if_neg hfeb]
        split
        · omega
        · omega
    simp only [Date.isValid, Bool.and_eq_true, decide_eq_true_eq]
    exact ⟨⟨⟨by omega, by omega⟩, by omega⟩, hdaysInMonth⟩

/-- The day that lies `n` days after 1970-01-01 does so. -/
theorem toDays_ofDays (n : Int) : (Date.ofDays n).toDays = n := by
  have hparts := dayParts (n - marchOfYearZero)
  rw [show Date.ofDays n = dayOfYear (DayParts.year _ _ _ _) _ from rfl,
    toDays_dayOfYear _ hparts.ofYear_le, hparts.year_div_four, hparts.year_div_hundred,
    hparts.year_div_fourHundred]
  have hsum := hparts.sum
  unfold DayParts.year
  unfold marchOfYearZero at hsum ⊢
  omega

/-- The months and days of the days that the calendar has. -/
theorem bounds_of_isValid {d : Date} (h : d.isValid = true) :
    (1 ≤ d.month ∧ d.month ≤ 12) ∧ 1 ≤ d.day ∧ d.day ≤ 31 := by
  have hmonth : daysInMonth d.year d.month ≤ 31 := by
    unfold daysInMonth
    split
    · split <;> omega
    · split <;> omega
  simp only [Date.isValid, Bool.and_eq_true, decide_eq_true_eq] at h
  omega

/-- The calendar has every day that is counted. -/
theorem isValid_ofDays (n : Int) : (Date.ofDays n).isValid = true := by
  have hparts := dayParts (n - marchOfYearZero)
  exact isValid_dayOfYear hparts.ofYear_le hparts.isLeap_next

end Harvest.Calendar
