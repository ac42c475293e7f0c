/-
  Harvest.Proofs.Calendar.Relaxed

  The text of an instant and the relaxed form of dates: every instant that a clock can show is read
  back from its text (`ofRelaxed_text`), a leap second among them, and one in a year with a sign.
  So is an instant to the millisecond from a text of three digits (`ofRelaxed_millisText`). A
  number may have more digits than it is padded to (`exists_padded_eq`).
-/
import Harvest.Calendar.Relaxed
import Harvest.Proofs.Calendar.Text

namespace Harvest.Calendar

open Number (power)

/-! ## Digits -/

/-- A number has as many digits as it takes. -/
theorem exists_toDigits_eq (n : Nat) :
    ∃ width, 0 < width ∧ n < power 10 width ∧ Nat.toDigits 10 n = lastDigits width n := by
  induction n using Nat.strongRecOn with
  | ind n ih =>
    by_cases hsmall : n < 10
    · refine ⟨1, Nat.one_pos, hsmall, ?_⟩
      rw [Nat.toDigits_of_lt_base hsmall, lastDigits, lastDigits, Nat.mod_eq_of_lt hsmall,
        List.nil_append]
    · obtain ⟨width, -, hfits, hdigits⟩ := ih (n / 10) (by omega)
      refine ⟨width + 1, Nat.succ_pos width, ?_, ?_⟩
      · rw [power_succ]
        omega
      · rw [Nat.toDigits_of_base_le (by decide) (Nat.le_of_not_lt hsmall), hdigits, lastDigits]

/-- A number that needs more digits than it is padded to is written as it is. -/
theorem exists_padded_eq (width n : Nat) :
    ∃ digits, 0 < digits ∧ n < power 10 digits ∧ padded (width + 1) n = lastDigits digits n := by
  by_cases hfits : n < power 10 (width + 1)
  · exact ⟨width + 1, Nat.succ_pos width, hfits, padded_eq_lastDigits hfits⟩
  · obtain ⟨digits, hpos, hlarge, hdigits⟩ := exists_toDigits_eq n
    refine ⟨digits, hpos, hlarge, ?_⟩
    -- With fewer digits the number would fit the width.
    have hlonger : width + 1 ≤ digits := by
      rcases Nat.lt_or_ge digits (width + 1) with hless | hle
      · have hpower : power 10 digits ≤ power 10 (width + 1) :=
          Nat.pow_le_pow_right (by decide) (Nat.le_of_lt hless)
        omega
      · exact hle
    unfold padded
    dsimp only
    rw [hdigits, length_lastDigits, Nat.sub_eq_zero_of_le hlonger]
    rfl

theorem isBlank_digitChar {d : Nat} (h : d < 10) : Text.isBlank (Nat.digitChar d) = false := by
  have hall : ∀ d : Fin 10, Text.isBlank (Nat.digitChar d) = false := by decide
  exact hall ⟨d, h⟩

theorem trimStart_of_head {c : Char} (h : Text.isBlank c = false) (cs : List Char) :
    Text.trimStart (c :: cs) = c :: cs := by
  unfold Text.trimStart
  rw [List.dropWhile_cons_of_neg (by rw [h]; exact Bool.false_ne_true)]

/-- Digits begin with a digit. -/
theorem lastDigits_head {digits : Nat} (hpos : 0 < digits) (n : Nat) :
    ∃ d cs, d < 10 ∧ lastDigits digits n = Nat.digitChar d :: cs := by
  induction digits generalizing n with
  | zero => cases hpos
  | succ digits ih =>
    rw [lastDigits]
    cases digits with
    | zero => exact ⟨n % 10, [], Nat.mod_lt n (by decide), rfl⟩
    | succ digits =>
      obtain ⟨d, cs, hd, hcs⟩ := ih (Nat.succ_pos digits) (n / 10)
      exact ⟨d, cs ++ [Nat.digitChar (n % 10)], hd, by rw [hcs, List.cons_append]⟩

theorem trimStart_lastDigits {digits : Nat} (hpos : 0 < digits) (n : Nat) (rest : List Char) :
    Text.trimStart (lastDigits digits n ++ rest) = lastDigits digits n ++ rest := by
  obtain ⟨d, cs, hd, hcs⟩ := lastDigits_head hpos n
  rw [hcs, List.cons_append, trimStart_of_head (isBlank_digitChar hd)]

/-! ## Parts -/

/-- A part of two digits is read back, if it lies in its range. -/
theorem scanPart_padded {least greatest n : Nat} (h : least ≤ n ∧ n ≤ greatest)
    (hsmall : n < 100) {c : Char} (hc : digit? c = none) (rest : List Char) :
    scanPart least greatest (padded 2 n ++ c :: rest) = .ok (n, c :: rest) := by
  have htwo : n < power 10 2 := hsmall
  have hlimit : (n : Int) ≤ Number.greatestSigned64 := by
    have hbound : 100 ≤ Number.greatestSigned64 := by decide
    omega
  have hread := scanNumber_lastDigits (by decide) htwo hlimit (Nat.le_refl 2) hc rest
  have hrange : (decide (least ≤ n) && decide (n ≤ greatest)) = true := by
    rw [decide_eq_true h.1, decide_eq_true h.2]
    rfl
  unfold scanPart
  rw [padded_eq_lastDigits htwo, trimStart_lastDigits (by decide)]
  refine (bind_of_ok hread _).trans ?_
  dsimp only
  rw [if_pos hrange]
  rfl

theorem scanMark_self {c : Char} (h : Text.isBlank c = false) (rest : List Char) :
    scanMark c (c :: rest) = .ok ((), rest) := by
  unfold scanMark
  rw [trimStart_of_head h, scanChar_self]

/-- Behind a sign there may be any number of digits. -/
theorem scanNumber_padded {n : Nat} (hfits : (n : Int) ≤ Number.greatestSigned64)
    (rest : List Char) :
    scanNumber 1 (padded 4 n ++ '-' :: rest).length (padded 4 n ++ '-' :: rest) =
      .ok (n, '-' :: rest) := by
  obtain ⟨digits, hpos, hless, hdigits⟩ := exists_padded_eq 3 n
  rw [hdigits]
  refine scanNumber_lastDigits hpos hless hfits ?_ (by decide) rest
  rw [List.length_append, length_lastDigits]
  omega

/-- The years that a date may have fit thirty-two bits. -/
theorem year_inRange {year : Int} (hleast : leastYear ≤ year) (hgreatest : year ≤ greatestYear) :
    (decide (Number.leastSigned32 ≤ year) &&
      decide (year ≤ (Number.greatestSigned32 : Int))) = true := by
  have hleastYear : leastYear = -262143 := rfl
  have hgreatestYear : greatestYear = 262142 := rfl
  have hleast32 : Number.leastSigned32 = -2147483648 := rfl
  have hgreatest32 : Number.greatestSigned32 = 2147483647 := rfl
  rw [decide_eq_true (by omega), decide_eq_true (by omega)]
  rfl

/-- A year of four digits is read back. -/
theorem scanYear_padded {n : Nat} (hfour : n ≤ 9999) (rest : List Char) :
    scanYear (padded 4 n ++ '-' :: rest) = .ok ((n : Int), '-' :: rest) := by
  have hfits : n < power 10 4 := Nat.lt_succ_of_le hfour
  have hlimit : (n : Int) ≤ Number.greatestSigned64 := by
    have hbound : 9999 ≤ Number.greatestSigned64 := by decide
    omega
  have hread := scanNumber_lastDigits (by decide) hfits hlimit (Nat.le_refl 4)
    (by decide : digit? '-' = none) rest
  -- The first character is a digit, and so no sign.
  obtain ⟨d, cs, hd, hcs⟩ := lastDigits_head (by decide : 0 < 4) n
  have hsign : Nat.digitChar d ≠ '-' ∧ Nat.digitChar d ≠ '+' := by
    have hall : ∀ d : Fin 10, Nat.digitChar d ≠ '-' ∧ Nat.digitChar d ≠ '+' := by decide
    exact hall ⟨d, hd⟩
  have hrange : (decide (Number.leastSigned32 ≤ (n : Int)) &&
      decide ((n : Int) ≤ (Number.greatestSigned32 : Int))) = true :=
    year_inRange (by show -262143 ≤ _; omega) (by show _ ≤ 262142; omega)
  unfold scanYear
  rw [padded_eq_lastDigits hfits, trimStart_lastDigits (by decide)]
  rw [hcs, List.cons_append] at hread ⊢
  dsimp only
  split
  · next heq => exact absurd (List.cons.inj heq).1 hsign.1
  · next heq => exact absurd (List.cons.inj heq).1 hsign.2
  · refine (bind_of_ok hread _).trans ?_
    exact if_pos hrange

/-- A year is read back, with its sign if it has one. -/
theorem scanYear_yearText {year : Int} (hleast : leastYear ≤ year) (hgreatest : year ≤ greatestYear)
    (rest : List Char) :
    scanYear (yearText year ++ '-' :: rest) = .ok (year, '-' :: rest) := by
  have hrange := year_inRange hleast hgreatest
  have hread : scanNumber 1 (padded 4 year.natAbs ++ '-' :: rest).length
      (padded 4 year.natAbs ++ '-' :: rest) = .ok (year.natAbs, '-' :: rest) := by
    have hleastYear : leastYear = -262143 := rfl
    have hgreatestYear : greatestYear = 262142 := rfl
    have hgreatest64 : Number.greatestSigned64 = 9223372036854775807 := rfl
    exact scanNumber_padded (by omega) rest
  unfold yearText
  by_cases hfour : 0 ≤ year ∧ year ≤ 9999
  · rw [if_pos hfour, scanYear_padded (by omega), show (year.toNat : Int) = year by omega]
  · rw [if_neg hfour]
    unfold scanYear
    by_cases hnegative : year < 0
    · rw [if_pos hnegative, List.cons_append, trimStart_of_head (by decide)]
      refine (bind_of_ok hread _).trans ?_
      show (if (_ && _) = true then Except.ok (-(year.natAbs : Int), _) else _) = _
      rw [show -(year.natAbs : Int) = year by omega, if_pos hrange]
    · rw [if_neg hnegative, List.cons_append, trimStart_of_head (by decide)]
      refine (bind_of_ok hread _).trans ?_
      show (if (_ && _) = true then Except.ok ((year.natAbs : Int), _) else _) = _
      rw [show (year.natAbs : Int) = year by omega, if_pos hrange]

theorem scanRelaxedDate_text {d : Date} (hleast : leastYear ≤ d.year)
    (hgreatest : d.year ≤ greatestYear) (hmonth : 1 ≤ d.month ∧ d.month ≤ 12)
    (hday : 1 ≤ d.day ∧ d.day ≤ 31) {c : Char} (hc : digit? c = none) (rest : List Char) :
    scanRelaxedDate (yearText d.year ++ '-' :: (padded 2 d.month ++ '-' :: (padded 2 d.day ++
      c :: rest))) = .ok (d, c :: rest) := by
  have hdash : digit? '-' = none := by decide
  unfold scanRelaxedDate
  refine (bind_of_ok (scanYear_yearText hleast hgreatest _) _).trans ?_
  refine (bind_of_ok (scanMark_self (by decide) _) _).trans ?_
  refine (bind_of_ok (scanPart_padded hmonth (by omega) hdash _) _).trans ?_
  refine (bind_of_ok (scanMark_self (by decide) _) _).trans ?_
  refine (bind_of_ok (scanPart_padded hday (by omega) hc _) _).trans ?_
  rfl

/-- A text of the precision leaves nothing of a fraction out. -/
def Precision.ShowsAll (precision : Precision) (nanos : Nat) : Prop :=
  precision = .millis → nanos % 1000000 = 0

theorem Precision.showsAll_shortest (nanos : Nat) : Precision.shortest.ShowsAll nanos := nofun

/-- A text that leaves nothing of a fraction out shows none, of a whole second, or one that is
    read back. -/
theorem fractionText_cases {precision : Precision} {nanos : Nat} (h : nanos < 1000000000)
    (hall : precision.ShowsAll nanos) :
    (nanos = 0 ∧ fractionText precision nanos = []) ∨
      ∃ more, fractionText precision nanos ++ ['Z'] = '.' :: more ∧
        scanFraction more = .ok (nanos, ['Z']) := by
  have hthree : power 10 3 = 1000 := rfl
  have hsix : power 10 6 = 1000000 := rfl
  cases precision with
  | millis =>
    have hmillis : nanos / 1000000 * 1000000 = nanos :=
      Nat.div_mul_cancel (Nat.dvd_of_mod_eq_zero (hall rfl))
    have hread := scanFraction_padded (by omega : nanos / 1000000 < 1000) []
    rw [hmillis] at hread
    exact .inr ⟨_, rfl, hread⟩
  | shortest =>
  unfold fractionText
  dsimp only
  by_cases hzero : nanos = 0
  · rw [if_pos hzero]
    exact .inl ⟨hzero, rfl⟩
  · right
    rw [if_neg hzero]
    by_cases hmillis : nanos % 1000000 = 0
    · have hfits : nanos / 1000000 < power 10 3 := by omega
      have hread := scanFraction_lastDigits (by decide) (by decide) hfits []
      rw [if_pos hmillis, padded_eq_lastDigits hfits]
      refine ⟨_, List.cons_append, ?_⟩
      rw [hread, show 9 - 3 = 6 from rfl, hsix,
        Nat.div_mul_cancel (Nat.dvd_of_mod_eq_zero hmillis)]
    · rw [if_neg hmillis]
      by_cases hmicros : nanos % 1000 = 0
      · have hfits : nanos / 1000 < power 10 6 := by omega
        have hread := scanFraction_lastDigits (by decide) (by decide) hfits []
        rw [if_pos hmicros, padded_eq_lastDigits hfits]
        refine ⟨_, List.cons_append, ?_⟩
        rw [hread, show 9 - 6 = 3 from rfl, hthree,
          Nat.div_mul_cancel (Nat.dvd_of_mod_eq_zero hmicros)]
      · have hfits : nanos < power 10 9 := h
        have hread := scanFraction_lastDigits (by decide) (by decide) hfits []
        rw [if_neg hmicros, padded_eq_lastDigits hfits]
        refine ⟨_, List.cons_append, ?_⟩
        rw [hread, Nat.sub_self, show power 10 0 = 1 from rfl, Nat.mul_one]

/-- The time of day is read back; a second of its own is read as the last one of its minute, and
    what is past it as a fraction. -/
theorem scanRelaxedTime_text {precision : Precision} {hour minute second nanos : Nat}
    (hhour : hour ≤ 23) (hminute : minute ≤ 59) (hsecond : second ≤ 60)
    (hnanos : nanos < 1000000000) (hall : precision.ShowsAll nanos) :
    scanRelaxedTime (padded 2 hour ++ ':' :: (padded 2 minute ++ ':' :: (padded 2 second ++
      (fractionText precision nanos ++ ['Z'])))) =
      if second = 60 then .ok ((hour * 3600 + minute * 60 + 59, nanos + 1000000000), ['Z'])
      else .ok ((hour * 3600 + minute * 60 + second, nanos), ['Z']) := by
  have hcolon : digit? ':' = none := by decide
  have hrange : 0 ≤ second ∧ second ≤ 60 := ⟨Nat.zero_le second, hsecond⟩
  unfold scanRelaxedTime
  refine (bind_of_ok (scanPart_padded ⟨by omega, hhour⟩ (by omega) hcolon _) _).trans ?_
  refine (bind_of_ok (scanMark_self (by decide) _) _).trans ?_
  refine (bind_of_ok (scanPart_padded ⟨by omega, hminute⟩ (by omega) hcolon _) _).trans ?_
  refine (bind_of_ok (scanMark_self (by decide) _) _).trans ?_
  rcases fractionText_cases hnanos hall with ⟨rfl, hnone⟩ | ⟨more, hfraction, hread⟩
  · have hread := scanPart_padded hrange (by omega) (by decide : digit? 'Z' = none) []
    rw [hnone]
    refine (bind_of_ok hread _).trans ?_
    rfl
  · have hpart := scanPart_padded hrange (by omega) (by decide : digit? '.' = none) more
    rw [hfraction]
    refine (bind_of_ok hpart _).trans ?_
    refine (bind_of_ok hread _).trans ?_
    rfl

/-! ## Instants -/

namespace Instant

/-- An instant that a clock can show: its year is one that a date may have, and a leap second is
    the last one of its minute. -/
structure Shows (t : Instant) : Prop where
  inRange : inRange t.seconds = true
  nanos : t.nanos < 1000000000 ∨ t.nanos < 2000000000 ∧ t.secondOfDay % 60 = 59

/-- A later year begins later, by all days of the years between but for the leap days. -/
theorem daysBefore_le {y z : Int} (h : y ≤ z) :
    365 * y + y / 4 - y / 100 + y / 400 + 364 * (z - y) ≤
      365 * z + z / 4 - z / 100 + z / 400 := by
  obtain ⟨k, rfl⟩ := Int.le.dest h
  clear h
  induction k with
  | zero => omega
  | succ k ih => omega

/-- A day of an earlier year comes before the first one of a year. -/
theorem toDays_lt_of_year_lt {d : Date} (hmonth : 1 ≤ d.month ∧ d.month ≤ 12) (hday : d.day ≤ 31)
    {year : Int} (h : d.year < year) : d.toDays < Date.toDays ⟨year, 1, 1⟩ := by
  obtain ⟨y, month, day⟩ := d
  unfold Date.toDays marchOfYearZero
  dsimp only at h hmonth hday ⊢
  rw [if_pos (by decide : 1 ≤ 2)]
  split
  · have hyears := daysBefore_le (y := y - 1) (z := year - 1) (by omega)
    have hshift : (month + 9) % 12 = month + 9 := by omega
    rw [hshift]
    omega
  · have hyears := daysBefore_le (y := y) (z := year - 1) (by omega)
    have hshift : (month + 9) % 12 = month - 3 := by omega
    have hofYear : (153 * (month - 3) + 2) / 5 ≤ 275 := by omega
    rw [hshift]
    omega

/-- A day of a later year comes behind the last one of a year. -/
theorem lt_toDays_of_lt_year {d : Date} (hmonth : 1 ≤ d.month ∧ d.month ≤ 12)
    {year : Int} (h : year < d.year) : Date.toDays ⟨year, 12, 31⟩ < d.toDays := by
  obtain ⟨y, month, day⟩ := d
  unfold Date.toDays marchOfYearZero
  dsimp only at h hmonth ⊢
  rw [if_neg (by decide : ¬ 12 ≤ 2)]
  split
  · have hyears := daysBefore_le (y := year) (z := y - 1) (by omega)
    have hshift : (month + 9) % 12 = month + 9 := by omega
    have hofYear : 306 ≤ (153 * (month + 9) + 2) / 5 := by omega
    rw [hshift]
    omega
  · have hyears := daysBefore_le (y := year) (z := y) (by omega)
    omega

/-- The parts of the day of an instant lie in the ranges of their texts. -/
theorem date_parts (t : Instant) :
    (1 ≤ t.date.month ∧ t.date.month ≤ 12) ∧ 1 ≤ t.date.day ∧ t.date.day ≤ 31 := by
  have hvalid : t.date.isValid = true := isValid_ofDays _
  have hall : 1 ≤ t.date.month ∧ t.date.month ≤ 12 ∧ 1 ≤ t.date.day ∧
      t.date.day ≤ daysInMonth t.date.year t.date.month := by
    simpa [Date.isValid, and_assoc] using hvalid
  have hthirtyone : daysInMonth t.date.year t.date.month ≤ 31 := by
    unfold daysInMonth
    split
    · split <;> omega
    · split <;> omega
  omega

/-- The year of an instant in range is one that a date may have. -/
theorem year_of_inRange {t : Instant} (h : inRange t.seconds = true) :
    leastYear ≤ t.date.year ∧ t.date.year ≤ greatestYear := by
  obtain ⟨hmonth, -, hday⟩ := t.date_parts
  have hdays : t.date.toDays = t.seconds / 86400 := toDays_ofDays _
  have h : (decide (leastSecond ≤ t.seconds) && decide (t.seconds ≤ greatestSecond)) = true := h
  rw [Bool.and_eq_true, decide_eq_true_eq, decide_eq_true_eq] at h
  unfold leastSecond greatestSecond at h
  constructor
  · refine Int.not_lt.mp ?_
    intro hearly
    have hless := toDays_lt_of_year_lt hmonth hday hearly
    omega
  · refine Int.not_lt.mp ?_
    intro hlate
    have hless := lt_toDays_of_lt_year hmonth hlate
    omega

/-- The text of an instant, part by part. -/
theorem chars_eq (t : Instant) (precision : Precision) (second nanos : Nat)
    (hsecond : second = if 1000000000 ≤ t.nanos then t.secondOfDay % 60 + 1 else t.secondOfDay % 60)
    (hnanos : nanos = if 1000000000 ≤ t.nanos then t.nanos - 1000000000 else t.nanos) :
    t.chars precision = yearText t.date.year ++ '-' :: (padded 2 t.date.month ++
      '-' :: (padded 2 t.date.day ++ 'T' :: (padded 2 (t.secondOfDay / 3600) ++
        ':' :: (padded 2 (t.secondOfDay / 60 % 60) ++ ':' :: (padded 2 second ++
          (fractionText precision nanos ++ ['Z'])))))) := by
  unfold chars
  simp only [hsecond, hnanos, List.append_assoc, List.cons_append]

/-- Every instant that a clock can show is read back from a text that leaves nothing of it out. -/
theorem ofRelaxed_chars {t : Instant} (h : t.Shows) {precision : Precision}
    (hprecise : precision.ShowsAll t.nanos) : ofRelaxed (t.chars precision) = .ok t := by
  obtain ⟨hinRange, hshown⟩ := h
  obtain ⟨hleast, hgreatest⟩ := year_of_inRange hinRange
  have hvalid : t.date.isValid = true := isValid_ofDays _
  have hdays : t.date.toDays = t.seconds / 86400 := toDays_ofDays _
  have hofDay : t.secondOfDay < 86400 ∧ (t.secondOfDay : Int) = t.seconds % 86400 := by
    unfold secondOfDay
    omega
  have hparts := t.date_parts
  generalize hsecond : (if 1000000000 ≤ t.nanos then t.secondOfDay % 60 + 1
    else t.secondOfDay % 60) = second
  generalize hnanos : (if 1000000000 ≤ t.nanos then t.nanos - 1000000000 else t.nanos) = nanos
  have hsmall : second ≤ 60 ∧ nanos < 1000000000 := by
    split at hsecond <;> split at hnanos <;> omega
  have hall : precision.ShowsAll nanos := by
    intro hmillis
    have hwhole := hprecise hmillis
    split at hnanos <;> omega
  -- The second that is read is the one that the text shows, a leap second or not.
  have htime : scanRelaxedTime (padded 2 (t.secondOfDay / 3600) ++
      ':' :: (padded 2 (t.secondOfDay / 60 % 60) ++ ':' :: (padded 2 second ++
        (fractionText precision nanos ++ ['Z'])))) =
      .ok ((t.secondOfDay, t.nanos), ['Z']) := by
    rw [scanRelaxedTime_text (by omega) (by omega) hsmall.1 hsmall.2 hall]
    by_cases hleap : 1000000000 ≤ t.nanos
    · rw [if_pos hleap] at hsecond hnanos
      have hlast : t.secondOfDay % 60 = 59 := by omega
      rw [if_pos (by omega), show t.secondOfDay / 3600 * 3600 + t.secondOfDay / 60 % 60 * 60 + 59 =
        t.secondOfDay by omega, show nanos + 1000000000 = t.nanos by omega]
    · rw [if_neg hleap] at hsecond hnanos
      rw [if_neg (by omega), hnanos, show t.secondOfDay / 3600 * 3600 +
        t.secondOfDay / 60 % 60 * 60 + second = t.secondOfDay by omega]
  have hdate := scanRelaxedDate_text (d := t.date) hleast hgreatest hparts.1 hparts.2
    (by decide : digit? 'T' = none) (padded 2 (t.secondOfDay / 3600) ++
      ':' :: (padded 2 (t.secondOfDay / 60 % 60) ++ ':' :: (padded 2 second ++
        (fractionText precision nanos ++ ['Z']))))
  have hyear : (!t.date.isValid || decide (t.date.year < leastYear) ||
      decide (greatestYear < t.date.year)) = false := by
    rw [hvalid, decide_eq_false (Int.not_lt.mpr hleast), decide_eq_false (Int.not_lt.mpr hgreatest)]
    rfl
  rw [chars_eq t precision second nanos hsecond.symm hnanos.symm]
  unfold ofRelaxed
  refine (bind_of_ok hdate _).trans ?_
  refine (bind_of_ok (a := ((), _)) rfl _).trans ?_
  refine (bind_of_ok htime _).trans ?_
  refine (bind_of_ok (a := (0, [])) rfl _).trans ?_
  show (if (!t.date.isValid || decide (t.date.year < leastYear) ||
    decide (greatestYear < t.date.year)) = true then _ else _) = _
  rw [hyear, if_neg Bool.false_ne_true]
  show ofLocal t.date t.secondOfDay t.nanos 0 = _
  unfold ofLocal
  rw [if_neg (by decide)]
  dsimp only
  rw [hdays, show t.seconds / 86400 * 86400 + (t.secondOfDay : Int) - 0 = t.seconds by omega,
    if_pos hinRange]

/-- Every instant that a clock can show is read back from its text. -/
theorem ofRelaxed_text {t : Instant} (h : t.Shows) : ofRelaxed t.text.toList = .ok t := by
  unfold text
  rw [String.toList_ofList]
  exact ofRelaxed_chars h (Precision.showsAll_shortest t.nanos)

/-- An instant to the millisecond is read back from its text of three digits, whatever its
    year is. -/
theorem ofRelaxed_millisText {ms : Int} {t : Instant} (h : ofMillis? ms = some t) :
    ofRelaxed t.millisText.toList = .ok t := by
  have hparts : inRange t.seconds = true ∧ t.nanos < 1000000000 ∧ t.nanos % 1000000 = 0 := by
    unfold ofMillis? at h
    dsimp only at h
    split at h
    · next hrange =>
      cases h
      exact ⟨hrange, by dsimp only; omega, Nat.mul_mod_left _ _⟩
    · cases h
  obtain ⟨hrange, hnanos, hwhole⟩ := hparts
  unfold millisText
  rw [String.toList_ofList]
  exact ofRelaxed_chars ⟨hrange, .inl hnanos⟩ fun _ => hwhole

end Instant

end Harvest.Calendar
