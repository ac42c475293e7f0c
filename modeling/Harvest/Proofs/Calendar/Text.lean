/-
  Harvest.Proofs.Calendar.Text

  The text of an instant to the millisecond and the strict form of dates. An instant whose year
  has four digits is read back from its text (`ofStrict_chars`); a year beyond them carries a
  sign, which the strict form refuses (`ofStrict_chars_of_signed`). Numbers are read digit by digit
  (`scanExactly_lastDigits`, `scanDigits_lastDigits`), whatever their width.
-/
import Harvest.Calendar.Strict
import Harvest.Calendar.Text
import Harvest.Proofs.Calendar.Days
import Harvest.Proofs.Outcome

namespace Harvest.Calendar

open Number (power)

/-! ## Digits -/

/-- The last decimal digits of a number, of a fixed width. -/
def lastDigits : Nat → Nat → List Char
  | 0, _ => []
  | width + 1, n => lastDigits width (n / 10) ++ [Nat.digitChar (n % 10)]

theorem length_lastDigits (width n : Nat) : (lastDigits width n).length = width := by
  induction width generalizing n with
  | zero => rfl
  | succ width ih => rw [lastDigits, List.length_append, ih, List.length_singleton]

theorem power_succ (n : Nat) : power 10 (n + 1) = power 10 n * 10 := rfl

theorem digit?_digitChar {d : Nat} (h : d < 10) : digit? (Nat.digitChar d) = some d := by
  have hall : ∀ d : Fin 10, digit? (Nat.digitChar d) = some d.val := by decide
  exact hall ⟨d, h⟩

/-- A number that fits its width is padded to just its last digits. -/
theorem padded_eq_lastDigits {width n : Nat} (h : n < power 10 (width + 1)) :
    padded (width + 1) n = lastDigits (width + 1) n := by
  induction width generalizing n with
  | zero =>
    have hsmall : n < 10 := h
    unfold padded
    rw [Nat.toDigits_of_lt_base hsmall]
    simp [lastDigits, Nat.mod_eq_of_lt hsmall]
  | succ width ih =>
    have hpower : power 10 (width + 1 + 1) = power 10 (width + 1) * 10 := rfl
    have hquotient : n / 10 < power 10 (width + 1) := by omega
    rw [lastDigits, ← ih hquotient]
    unfold padded
    dsimp only
    by_cases hsmall : n < 10
    · have hzero : n / 10 = 0 := by omega
      rw [hzero, Nat.toDigits_zero, Nat.toDigits_of_lt_base hsmall, Nat.mod_eq_of_lt hsmall,
        List.length_singleton, List.length_singleton, Nat.add_sub_cancel, Nat.add_sub_cancel,
        List.replicate_succ']
    · rw [Nat.toDigits_of_base_le (by decide) (Nat.le_of_not_lt hsmall), List.length_append,
        List.length_singleton, Nat.add_sub_add_right, List.append_assoc]

theorem le_length_padded (width n : Nat) : width ≤ (padded width n).length := by
  unfold padded
  rw [List.length_append, List.length_replicate]
  omega

/-! ## Reading numbers -/

/-- Reading exactly as many digits as were written goes on behind them. -/
theorem scanExactly_lastDigits {width n : Nat} (h : n < power 10 width) (more value : Nat)
    (rest : List Char) :
    scanExactly (width + more) value (lastDigits width n ++ rest) =
      scanExactly more (value * power 10 width + n) rest := by
  induction width generalizing n more rest with
  | zero =>
    have hn : n = 0 := by
      have : n < 1 := h
      omega
    subst hn
    rw [Nat.zero_add, lastDigits, List.nil_append, show power 10 0 = 1 from rfl, Nat.mul_one,
      Nat.add_zero]
  | succ width ih =>
    rw [power_succ] at h
    have hquotient : n / 10 < power 10 width := by omega
    have hread := ih hquotient (more + 1) (Nat.digitChar (n % 10) :: rest)
    rw [lastDigits, List.append_assoc, List.singleton_append, Nat.add_right_comm, Nat.add_assoc,
      hread, scanExactly, digit?_digitChar (Nat.mod_lt n (by decide))]
    have hvalue : 10 * (value * power 10 width + n / 10) + n % 10 =
        value * power 10 (width + 1) + n := by
      rw [power_succ, ← Nat.mul_assoc]
      omega
    dsimp only
    rw [hvalue]

/-- A padded number is read back. -/
theorem scanExactly_padded {width n : Nat} (h : n < power 10 (width + 1)) (rest : List Char) :
    scanExactly (width + 1) 0 (padded (width + 1) n ++ rest) = .ok (n, rest) := by
  have hread := scanExactly_lastDigits h 0 0 rest
  rw [padded_eq_lastDigits h]
  rw [Nat.add_zero, Nat.zero_mul, Nat.zero_add] at hread
  exact hread

theorem scanChar_self (c : Char) (rest : List Char) : scanChar c (c :: rest) = .ok ((), rest) := by
  unfold scanChar
  dsimp only
  rw [if_pos rfl]

/-- A text has at least as many octets as characters. -/
theorem length_le_size (cs : List Char) : cs.length ≤ Utf8.size cs := by
  induction cs with
  | nil => exact Nat.le_refl 0
  | cons c cs ih =>
    have hpos := c.utf8Size_pos
    show cs.length + 1 ≤ c.utf8Size + Utf8.size cs
    omega

/-- Digits are read one by one, as long as their value fits. -/
theorem scanDigits_lastDigits {width n : Nat} (h : n < power 10 width) {value : Nat}
    (hfits : ((value * power 10 width + n : Nat) : Int) ≤ Number.greatestSigned64)
    (least count more : Nat) (rest : List Char) :
    scanDigits least count value (width + more) (lastDigits width n ++ rest) =
      scanDigits least (count + width) (value * power 10 width + n) more rest := by
  induction width generalizing n more rest with
  | zero =>
    have hn : n = 0 := Nat.lt_one_iff.mp h
    subst hn
    rw [lastDigits, List.nil_append, show power 10 0 = 1 from rfl, Nat.mul_one, Nat.add_zero,
      Nat.zero_add, Nat.add_zero]
  | succ width ih =>
    rw [power_succ] at h hfits ⊢
    have hvalue : 10 * (value * power 10 width + n / 10) + n % 10 =
        value * (power 10 width * 10) + n := by
      rw [← Nat.mul_assoc]
      omega
    have hfront := ih (n := n / 10) (by omega) (by omega) (more + 1)
      (Nat.digitChar (n % 10) :: rest)
    rw [lastDigits, List.append_assoc, List.singleton_append, Nat.add_right_comm, Nat.add_assoc,
      hfront, scanDigits, digit?_digitChar (Nat.mod_lt n (by decide))]
    dsimp only
    rw [hvalue, if_neg (by omega)]
    rfl

theorem scanDigits_of_stop {c : Char} (h : digit? c = none) {least count : Nat}
    (hleast : least ≤ count) (value width : Nat) (rest : List Char) :
    scanDigits least count value width (c :: rest) = .ok (value, c :: rest) := by
  cases width with
  | zero => rw [scanDigits]
  | succ width =>
    rw [scanDigits, h]
    dsimp only
    rw [if_neg (Nat.not_lt.mpr hleast)]

/-- A number in front of something that is no digit is read, if its digits are not too many. -/
theorem scanNumber_lastDigits {digits n width : Nat} (hpos : 0 < digits)
    (h : n < power 10 digits) (hfits : (n : Int) ≤ Number.greatestSigned64)
    (hwidth : digits ≤ width) {c : Char} (hc : digit? c = none) (rest : List Char) :
    scanNumber 1 width (lastDigits digits n ++ c :: rest) = .ok (n, c :: rest) := by
  have hsize : ¬ Utf8.size (lastDigits digits n ++ c :: rest) < 1 := by
    have hlength := length_le_size (lastDigits digits n ++ c :: rest)
    rw [List.length_append, List.length_cons] at hlength
    omega
  have hlimit : ((0 * power 10 digits + n : Nat) : Int) ≤ Number.greatestSigned64 := by
    simpa using hfits
  have hread := scanDigits_lastDigits h hlimit 1 0 (width - digits) (c :: rest)
  rw [Nat.add_sub_cancel' hwidth, Nat.zero_mul, Nat.zero_add, Nat.zero_add,
    scanDigits_of_stop hc hpos] at hread
  unfold scanNumber
  rw [if_neg hsize]
  exact hread

/-- A fraction of a second of some digits is read back as nanoseconds. -/
theorem scanFraction_lastDigits {digits n : Nat} (hpos : 0 < digits) (hnine : digits ≤ 9)
    (h : n < power 10 digits) (rest : List Char) :
    scanFraction (lastDigits digits n ++ 'Z' :: rest) =
      .ok (n * power 10 (9 - digits), 'Z' :: rest) := by
  have hlimit : (n : Int) ≤ Number.greatestSigned64 := by
    have hpower : power 10 digits ≤ power 10 9 := Nat.pow_le_pow_right (by decide) hnine
    have hten : power 10 9 = 1000000000 := rfl
    have hbound : 1000000000 ≤ Number.greatestSigned64 := by decide
    omega
  have hscan := scanNumber_lastDigits hpos h hlimit hnine (by decide : digit? 'Z' = none) rest
  have hwidth : (lastDigits digits n ++ 'Z' :: rest).length - ('Z' :: rest).length = digits := by
    rw [List.length_append, Nat.add_sub_cancel, length_lastDigits]
  unfold scanFraction
  refine (bind_of_ok hscan _).trans ?_
  dsimp only
  rw [hwidth]
  rfl

/-- Three digits of a fraction of a second are read back as nanoseconds. -/
theorem scanFraction_padded {n : Nat} (h : n < 1000) (rest : List Char) :
    scanFraction (padded 3 n ++ 'Z' :: rest) = .ok (n * 1000000, 'Z' :: rest) := by
  have hthree : n < power 10 3 := h
  rw [padded_eq_lastDigits hthree]
  exact scanFraction_lastDigits (by decide) (by decide) hthree rest

/-! ## Reading the text of an instant -/

/-- The day of an instant is read back from its text. -/
theorem scanStrictDate_text {d : Date} (hyear : 0 ≤ d.year ∧ d.year ≤ 9999)
    (hvalid : d.isValid = true) (rest : List Char) :
    scanStrictDate (yearText d.year ++ '-' :: padded 2 d.month ++ '-' :: padded 2 d.day ++ rest) =
      .ok (d, rest) := by
  obtain ⟨year, month, day⟩ := d
  dsimp only at hyear ⊢
  have hparts : (1 ≤ month ∧ month ≤ 12) ∧ 1 ≤ day ∧ day ≤ 31 := bounds_of_isValid hvalid
  have hfour : year.toNat < power 10 4 := by
    have hpower : power 10 4 = 10000 := rfl
    omega
  have htwo : month < power 10 2 ∧ day < power 10 2 := by
    have hpower : power 10 2 = 100 := rfl
    omega
  have hcast : (year.toNat : Int) = year := by omega
  have hchars : yearText year ++ '-' :: padded 2 month ++ '-' :: padded 2 day ++ rest =
      padded 4 year.toNat ++ ('-' :: (padded 2 month ++ ('-' :: (padded 2 day ++ rest)))) := by
    unfold yearText
    rw [if_pos hyear]
    simp only [List.append_assoc, List.cons_append]
  unfold scanStrictDate
  rw [hchars]
  refine (bind_of_ok (scanExactly_padded hfour _) _).trans ?_
  refine (bind_of_ok (scanChar_self '-' _) _).trans ?_
  refine (bind_of_ok (scanExactly_padded htwo.1 _) _).trans ?_
  refine (bind_of_ok (scanChar_self '-' _) _).trans ?_
  refine (bind_of_ok (scanExactly_padded htwo.2 _) _).trans ?_
  show (if Date.isValid ⟨(year.toNat : Int), month, day⟩ then _ else _) = _
  rw [hcast, if_pos hvalid]
  rfl

/-- The time of day of an instant is read back from its text. -/
theorem scanStrictTime_text {second millis : Nat} (hsecond : second < 86400)
    (hmillis : millis < 1000) (rest : List Char) :
    scanStrictTime (padded 2 (second / 3600) ++ ':' :: padded 2 (second / 60 % 60) ++
      ':' :: padded 2 (second % 60) ++ '.' :: padded 3 millis ++ 'Z' :: rest) =
      .ok ((second, millis * 1000000), 'Z' :: rest) := by
  have hpower : power 10 2 = 100 := rfl
  have hhour : second / 3600 < power 10 2 := by omega
  have hminute : second / 60 % 60 < power 10 2 := by omega
  have hrest : second % 60 < power 10 2 := by omega
  have hchars : padded 2 (second / 3600) ++ ':' :: padded 2 (second / 60 % 60) ++
      ':' :: padded 2 (second % 60) ++ '.' :: padded 3 millis ++ 'Z' :: rest =
      padded 2 (second / 3600) ++ (':' :: (padded 2 (second / 60 % 60) ++
        (':' :: (padded 2 (second % 60) ++ ('.' :: (padded 3 millis ++ 'Z' :: rest)))))) := by
    simp only [List.append_assoc, List.cons_append]
  have hrange : ¬ (24 ≤ second / 3600 ∨ 60 ≤ second / 60 % 60 ∨ 61 ≤ second % 60) := by omega
  have hleap : ¬ second % 60 = 60 := by omega
  have hsum : second / 3600 * 3600 + second / 60 % 60 * 60 + second % 60 = second := by omega
  unfold scanStrictTime
  rw [hchars]
  refine (bind_of_ok (scanExactly_padded hhour _) _).trans ?_
  refine (bind_of_ok (scanChar_self ':' _) _).trans ?_
  refine (bind_of_ok (scanExactly_padded hminute _) _).trans ?_
  refine (bind_of_ok (scanChar_self ':' _) _).trans ?_
  refine (bind_of_ok (scanExactly_padded hrest _) _).trans ?_
  refine (bind_of_ok (scanFraction_padded hmillis rest) _).trans ?_
  show (if 24 ≤ second / 3600 ∨ 60 ≤ second / 60 % 60 ∨ 61 ≤ second % 60 then _ else _) = _
  rw [if_neg hrange, if_neg hleap, hsum]
  rfl

/-- The text of an instant without a leap second, part by part. -/
theorem chars_millis {t : Instant} (h : t.nanos < 1000000000) :
    t.chars .millis = yearText t.date.year ++ '-' :: padded 2 t.date.month ++
      '-' :: padded 2 t.date.day ++ ('T' :: (padded 2 (t.secondOfDay / 3600) ++
        ':' :: padded 2 (t.secondOfDay / 60 % 60) ++ ':' :: padded 2 (t.secondOfDay % 60) ++
        '.' :: padded 3 (t.nanos / 1000000) ++ 'Z' :: [])) := by
  have hleap : ¬ 1000000000 ≤ t.nanos := by omega
  unfold Instant.chars
  simp only [hleap, if_false, fractionText, List.append_assoc, List.cons_append]

/-- An instant to the millisecond whose year has four digits is read back from its text. -/
theorem ofStrict_chars {ms : Int} {t : Instant} (h : Instant.ofMillis? ms = some t)
    (hyear : 0 ≤ t.date.year ∧ t.date.year ≤ 9999) :
    Instant.ofStrict (t.chars .millis) = .ok t := by
  have hparts : Instant.inRange t.seconds = true ∧ t.nanos = t.nanos / 1000000 * 1000000 ∧
      t.nanos / 1000000 < 1000 := by
    unfold Instant.ofMillis? at h
    dsimp only at h
    split at h
    · next hrange =>
      cases h
      dsimp only
      exact ⟨hrange, by omega, by omega⟩
    · cases h
  obtain ⟨hrange, hnanos, hmillis⟩ := hparts
  have hsecond : t.secondOfDay < 86400 := by
    unfold Instant.secondOfDay
    omega
  have hdays : t.date.toDays * 86400 + t.secondOfDay - 0 = t.seconds := by
    unfold Instant.date Instant.secondOfDay
    rw [toDays_ofDays]
    omega
  have hvalid : t.date.isValid = true := isValid_ofDays _
  have hdate := scanStrictDate_text hyear hvalid ('T' :: (padded 2 (t.secondOfDay / 3600) ++
    ':' :: padded 2 (t.secondOfDay / 60 % 60) ++ ':' :: padded 2 (t.secondOfDay % 60) ++
    '.' :: padded 3 (t.nanos / 1000000) ++ 'Z' :: []))
  rw [← chars_millis (by omega)] at hdate
  have hsize : ¬ Utf8.size (t.chars .millis) < strictWidth := by
    have hlength := length_le_size (t.chars .millis)
    have hyearText := le_length_padded 4 t.date.year.toNat
    have hmonthText := le_length_padded 2 t.date.month
    have hdayText := le_length_padded 2 t.date.day
    have hhourText := le_length_padded 2 (t.secondOfDay / 3600)
    have hminuteText := le_length_padded 2 (t.secondOfDay / 60 % 60)
    have hsecondText := le_length_padded 2 (t.secondOfDay % 60)
    rw [chars_millis (by omega)] at hlength ⊢
    unfold yearText at hlength ⊢
    rw [if_pos hyear] at hlength ⊢
    simp only [List.length_append, List.length_cons] at hlength
    unfold strictWidth
    omega
  unfold Instant.ofStrict
  rw [if_neg hsize]
  refine (bind_of_ok hdate _).trans ?_
  refine (bind_of_ok (a := ((), _)) rfl _).trans ?_
  refine (bind_of_ok (scanStrictTime_text hsecond hmillis []) _).trans ?_
  refine (bind_of_ok (a := (0, [])) rfl _).trans ?_
  show Instant.ofLocal t.date t.secondOfDay (t.nanos / 1000000 * 1000000) 0 = _
  unfold Instant.ofLocal
  rw [if_neg (by decide), hdays]
  dsimp only
  rw [if_pos hrange, ← hnanos]

/-- A year beyond four digits carries a sign, which the strict form refuses. -/
theorem ofStrict_chars_of_signed {t : Instant} (hyear : ¬ (0 ≤ t.date.year ∧ t.date.year ≤ 9999))
    (precision : Precision) : ∃ f, Instant.ofStrict (t.chars precision) = .error f := by
  have hchars : ∃ sign rest, digit? sign = none ∧ t.chars precision = sign :: rest := by
    unfold Instant.chars yearText
    dsimp only
    rw [if_neg hyear]
    by_cases hnegative : t.date.year < 0
    · rw [if_pos hnegative]
      exact ⟨'-', _, by decide, rfl⟩
    · rw [if_neg hnegative]
      exact ⟨'+', _, by decide, rfl⟩
  obtain ⟨sign, rest, hsign, hchars⟩ := hchars
  unfold Instant.ofStrict
  rw [hchars]
  by_cases hsize : Utf8.size (sign :: rest) < strictWidth
  · rw [if_pos hsize]
    exact ⟨.tooShort, rfl⟩
  · have hscan : scanExactly 4 0 (sign :: rest) = .error .invalid := by
      rw [scanExactly, hsign]
    rw [if_neg hsize]
    have hdate : scanStrictDate (sign :: rest) = .error .invalid := by
      unfold scanStrictDate
      rw [hscan]
      rfl
    refine ⟨.invalid, ?_⟩
    rw [hdate]
    rfl

end Harvest.Calendar
