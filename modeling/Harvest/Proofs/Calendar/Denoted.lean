/-
  Harvest.Proofs.Calendar.Denoted

  The instants that dates denote. Whatever text a date is read from, in whatever offset and with a
  leap second or without, its instant is one that can be shown again (`shows_of_ofRelaxed`): its
  year is one that a date may have, and as offsets are of whole minutes, a leap second is the last
  one of its minute in UTC, too. So the instants that can be shown are those that some text denotes
  (`shows_iff_ofRelaxed`).
-/
import Harvest.Proofs.Calendar.Relaxed
import Harvest.Proofs.Outcome

namespace Harvest.Calendar

open Number (power)

section

variable {cs left : List Char}

/-! ## Numbers -/

theorem digit?_lt {c : Char} {d : Nat} (h : digit? c = some d) : d < 10 := by
  unfold digit? at h
  split at h
  · next hdigit =>
    cases h
    have hrange : 48 ≤ c.val ∧ c.val ≤ 57 := by simpa [Char.isDigit] using hdigit
    have hnine : c.toNat ≤ 57 := UInt32.le_iff_toNat_le.mp hrange.2
    omega
  · cases h

/-- Each digit that is read makes a number ten times as great at most. -/
theorem lt_of_scanDigits {least count value width n : Nat}
    (h : scanDigits least count value width cs = .ok (n, left)) :
    ∃ digits ≤ width, cs.length = left.length + digits ∧ n < (value + 1) * power 10 digits := by
  induction width generalizing count value cs with
  | zero =>
    cases h
    exact ⟨0, Nat.le_refl 0, rfl, by simp [power]⟩
  | succ width ih =>
    cases cs with
    | nil =>
      cases h
      exact ⟨0, Nat.zero_le _, rfl, by simp [power]⟩
    | cons c cs =>
      rw [scanDigits] at h
      cases hc : digit? c with
      | none =>
        rw [hc] at h
        dsimp only at h
        split at h
        · cases h
        · cases h
          exact ⟨0, Nat.zero_le _, rfl, by simp [power]⟩
      | some d =>
        rw [hc] at h
        dsimp only at h
        split at h
        · cases h
        · obtain ⟨digits, hwidth, hlength, hless⟩ := ih h
          have hd := digit?_lt hc
          have hnext : (10 * value + d + 1) * power 10 digits ≤
              (value + 1) * power 10 (digits + 1) := by
            rw [power_succ, ← Nat.mul_assoc, Nat.mul_right_comm]
            exact Nat.mul_le_mul_right _ (by omega)
          refine ⟨digits + 1, by omega, ?_, Nat.lt_of_lt_of_le hless hnext⟩
          rw [List.length_cons, hlength, Nat.add_assoc]

/-- A fraction is less than a second. -/
theorem lt_of_scanFraction {nanos : Nat} (h : scanFraction cs = .ok (nanos, left)) :
    nanos < 1000000000 := by
  obtain ⟨⟨value, rest⟩, hvalue, h⟩ := of_bind_eq_ok h
  unfold scanNumber at hvalue
  split at hvalue
  · cases hvalue
  · cases h
    obtain ⟨digits, hwidth, hlength, hless⟩ := lt_of_scanDigits hvalue
    have hcount : cs.length - rest.length = digits := by omega
    have hnine : power 10 digits * power 10 (9 - digits) = 1000000000 := by
      unfold power
      rw [Nat.pow_eq, Nat.pow_eq, ← Nat.pow_add, show digits + (9 - digits) = 9 by omega]
    rw [hcount, ← hnine]
    exact Nat.mul_lt_mul_of_pos_right (by simpa using hless) (Nat.pow_pos (by decide))

/-! ## Times and offsets -/

/-- The nanoseconds of a time of day make less than a second, or less than two in the last second
    of a minute. -/
theorem nanos_of_scanRelaxedTime {second nanos : Nat}
    (h : scanRelaxedTime cs = .ok ((second, nanos), left)) :
    nanos < 1000000000 ∨ nanos < 2000000000 ∧ second % 60 = 59 := by
  obtain ⟨⟨hour, cs1⟩, -, h⟩ := of_bind_eq_ok h
  obtain ⟨⟨⟨⟩, cs2⟩, -, h⟩ := of_bind_eq_ok h
  obtain ⟨⟨minute, cs3⟩, -, h⟩ := of_bind_eq_ok h
  obtain ⟨⟨⟨⟩, cs4⟩, -, h⟩ := of_bind_eq_ok h
  obtain ⟨⟨shown, cs5⟩, -, h⟩ := of_bind_eq_ok h
  -- What follows is the same after a fraction that is read and after none.
  have hrest : ∀ fraction cs6, fraction < 1000000000 →
      (if shown = 60 then
        .ok ((hour * 3600 + minute * 60 + 59, fraction + 1000000000), cs6)
      else .ok ((hour * 3600 + minute * 60 + shown, fraction), cs6)) =
        (.ok ((second, nanos), left) : Except DateFault _) →
      nanos < 1000000000 ∨ nanos < 2000000000 ∧ second % 60 = 59 := by
    intro fraction cs6 hless h
    split at h
    · cases h
      right
      omega
    · cases h
      exact .inl hless
  dsimp only at h
  split at h
  · obtain ⟨⟨fraction, cs6⟩, hfraction, h⟩ := of_bind_eq_ok h
    exact hrest fraction cs6 (lt_of_scanFraction hfraction) h
  · obtain ⟨⟨fraction, cs6⟩, hfraction, h⟩ := of_bind_eq_ok h
    cases hfraction
    exact hrest 0 _ (by decide) h

/-- An offset is of whole minutes. -/
theorem minutes_of_scanOffset {offset : Int}
    (h : scanOffset scanLooseColon cs = .ok (offset, left)) : offset % 60 = 0 := by
  unfold scanOffset at h
  split at h
  · cases h
    rfl
  · cases h
    rfl
  · obtain ⟨⟨negative, cs1⟩, -, h⟩ := of_bind_eq_ok h
    obtain ⟨⟨hours, cs2⟩, -, h⟩ := of_bind_eq_ok h
    obtain ⟨⟨⟨⟩, cs3⟩, -, h⟩ := of_bind_eq_ok h
    obtain ⟨⟨minutes, cs4⟩, -, h⟩ := of_bind_eq_ok h
    cases h
    split
    · omega
    · omega

theorem minutes_of_scanZone {offset : Int} (h : scanZone cs = .ok (offset, left)) :
    offset % 60 = 0 := by
  unfold scanZone at h
  split at h
  · split at h
    · cases h
      rfl
    · exact minutes_of_scanOffset h
  · exact minutes_of_scanOffset h

end

namespace Instant

/-- The instant of a date can be shown. -/
theorem shows_of_ofRelaxed {cs : List Char} {t : Instant} (h : ofRelaxed cs = .ok t) :
    t.Shows := by
  obtain ⟨⟨date, cs1⟩, -, h⟩ := of_bind_eq_ok h
  obtain ⟨⟨⟨⟩, cs2⟩, -, h⟩ := of_bind_eq_ok h
  obtain ⟨⟨⟨second, nanos⟩, cs3⟩, htime, h⟩ := of_bind_eq_ok h
  obtain ⟨⟨offset, cs4⟩, hzone, h⟩ := of_bind_eq_ok h
  obtain ⟨-, h⟩ := of_check_eq_ok h
  obtain ⟨-, h⟩ := of_check_eq_ok h
  have hnanos := nanos_of_scanRelaxedTime htime
  have hminutes := minutes_of_scanZone hzone
  unfold ofLocal at h
  split at h
  · cases h
  · dsimp only at h
    split at h
    · next hrange =>
      cases h
      refine ⟨hrange, ?_⟩
      unfold secondOfDay
      dsimp only
      omega
    · cases h

/-- The instants that can be shown are those that dates denote. -/
theorem shows_iff_ofRelaxed {t : Instant} : t.Shows ↔ ∃ cs, ofRelaxed cs = .ok t := by
  constructor
  · intro h
    exact ⟨_, ofRelaxed_text h⟩
  · rintro ⟨cs, h⟩
    exact shows_of_ofRelaxed h

end Instant

end Harvest.Calendar
