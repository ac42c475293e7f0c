/-
  Harvest.Proofs.Json.Numeral

  Numbers in the middle of a text. What comes behind a number does not change how it is read, as
  long as it cannot be a part of it (`readNumber_append`), and a whole number that fits sixty-four
  bits is read back from its text (`readNumber_integerChars`).
-/
import Harvest.Json.Numeral

namespace Harvest.Json

/-- A text that can be no part of a number in front of it. -/
def EndsNumber (rest : List Char) : Prop :=
  ∀ c, rest.head? = some c → c.isDigit = false ∧ c ≠ '.' ∧ c ≠ 'e' ∧ c ≠ 'E'

theorem EndsNumber.nil : EndsNumber [] := by
  intro c hc
  cases hc

theorem EndsNumber.cons {c : Char} (h : c.isDigit = false ∧ c ≠ '.' ∧ c ≠ 'e' ∧ c ≠ 'E')
    (cs : List Char) : EndsNumber (c :: cs) := by
  intro d hd
  cases hd
  exact h

/-! ## Digits -/

theorem decimalDigit?_digitChar {d : Nat} (h : d < 10) :
    decimalDigit? (Nat.digitChar d) = some d := by
  have hall : ∀ d : Fin 10, decimalDigit? (Nat.digitChar d) = some d.val := by decide
  exact hall ⟨d, h⟩

theorem decimalDigit?_eq_none {c : Char} (h : c.isDigit = false) : decimalDigit? c = none := by
  unfold decimalDigit?
  rw [h]
  rfl

theorem isDigit_of_decimalDigit? {c : Char} {d : Nat} (h : decimalDigit? c = some d) :
    c.isDigit = true := by
  unfold decimalDigit? at h
  split at h
  · next hdigit => exact hdigit
  · cases h

section

variable {rest : List Char} (hrest : EndsNumber rest)

include hrest

theorem startsWithDigit_append (cs : List Char) :
    startsWithDigit (cs ++ rest) = startsWithDigit cs := by
  cases cs with
  | cons c cs => rfl
  | nil =>
    cases rest with
    | nil => rfl
    | cons c rest => exact (hrest c rfl).1

theorem dropDigits_append (cs : List Char) :
    (cs ++ rest).dropWhile Char.isDigit = cs.dropWhile Char.isDigit ++ rest := by
  induction cs with
  | nil =>
    cases rest with
    | nil => rfl
    | cons c rest =>
      have hc := (hrest c rfl).1
      simp [hc]
  | cons c cs ih =>
    by_cases hc : c.isDigit = true
    · simp [hc, ih]
    · simp [hc]

theorem takeDigits_append (cs : List Char) (significand taken : Nat) :
    takeDigits significand taken (cs ++ rest) =
      ((takeDigits significand taken cs).1, (takeDigits significand taken cs).2.1,
        (takeDigits significand taken cs).2.2 ++ rest) := by
  induction cs generalizing significand taken with
  | nil =>
    cases rest with
    | nil => rfl
    | cons c rest =>
      have hc := decimalDigit?_eq_none (hrest c rfl).1
      simp [takeDigits, hc]
  | cons c cs ih =>
    rw [List.cons_append, takeDigits, takeDigits]
    cases hd : decimalDigit? c with
    | none => rfl
    | some d =>
      dsimp only
      by_cases hfull : Harvest.Number.greatestUnsigned64 < 10 * significand + d
      · rw [if_pos hfull, if_pos hfull]
        rfl
      · rw [if_neg hfull, if_neg hfull]
        exact ih _ _

theorem takeExponent_append (cs : List Char) (n : Nat) :
    takeExponent n (cs ++ rest) = ((takeExponent n cs).1, (takeExponent n cs).2 ++ rest) := by
  induction cs generalizing n with
  | nil =>
    cases rest with
    | nil => rfl
    | cons c rest =>
      have hc := decimalDigit?_eq_none (hrest c rfl).1
      simp [takeExponent, hc]
  | cons c cs ih =>
    rw [List.cons_append, takeExponent, takeExponent]
    cases hd : decimalDigit? c with
    | none => rfl
    | some d =>
      dsimp only
      by_cases hlarge : Harvest.Number.greatestSigned32 < 10 * n + d
      · rw [if_pos hlarge, if_pos hlarge]
      · rw [if_neg hlarge, if_neg hlarge]
        exact ih _

end

/-! ## Numbers -/

/-- A reader that is not led astray by what comes behind its part. -/
def Reader.Local {α : Type} (read : Reader α) : Prop :=
  ∀ {cs left rest : List Char} {a : α}, EndsNumber rest → read cs = .ok (a, left) →
    read (cs ++ rest) = .ok (a, left ++ rest)

theorem endReal_local (negative : Bool) (significand : Nat) (exponent : Int) :
    (endReal negative significand exponent).Local := by
  intro cs left rest n _ h
  unfold endReal at h ⊢
  split at h
  · cases h
    rfl
  · cases h

theorem takeSign_append {c : Char} {cs rest : List Char} :
    takeSign (c :: cs ++ rest) = ((takeSign (c :: cs)).1, (takeSign (c :: cs)).2 ++ rest) := by
  by_cases hplus : c = '+'
  · subst hplus
    rfl
  · by_cases hminus : c = '-'
    · subst hminus
      rfl
    · simp [takeSign, hplus, hminus]

theorem readExponent_local (negative : Bool) (significand : Nat) (exponent : Int) :
    (readExponent negative significand exponent).Local := by
  intro cs left rest n hrest h
  cases cs with
  | nil => cases h
  | cons c cs =>
    unfold readExponent at h ⊢
    rw [takeSign_append]
    dsimp only at h ⊢
    generalize takeSign (c :: cs) = signed at h ⊢
    obtain ⟨down, digits⟩ := signed
    dsimp only at h ⊢
    cases digits with
    | nil => cases h
    | cons e digits =>
      dsimp only [List.cons_append] at h ⊢
      cases he : decimalDigit? e with
      | none =>
        rw [he] at h
        cases h
      | some d =>
        rw [he] at h
        dsimp only at h ⊢
        -- What comes behind is no digit, so that the same digits are taken.
        rw [takeExponent_append hrest]
        generalize takeExponent d digits = taken at h ⊢
        obtain ⟨value, behind⟩ := taken
        cases value with
        | value k => exact endReal_local _ _ _ hrest h
        | tooLarge =>
          dsimp only at h ⊢
          split at h
          · cases h
          · next hsmall =>
            cases h
            rw [if_neg hsmall, dropDigits_append hrest]

/-- A text goes on with an exponent, or with none. -/
theorem exponent_cases (cs : List Char) :
    (∃ behind, cs = 'e' :: behind) ∨ (∃ behind, cs = 'E' :: behind) ∨
      ∀ c, cs.head? = some c → c ≠ 'e' ∧ c ≠ 'E' := by
  cases cs with
  | nil => exact .inr (.inr nofun)
  | cons c cs =>
    by_cases hsmall : c = 'e'
    · exact .inl ⟨cs, by rw [hsmall]⟩
    · by_cases hcapital : c = 'E'
      · exact .inr (.inl ⟨cs, by rw [hcapital]⟩)
      · refine .inr (.inr ?_)
        intro d hd
        cases hd
        exact ⟨hsmall, hcapital⟩

theorem head?_append_of {cs rest : List Char} {P : Char → Prop}
    (hcs : ∀ c, cs.head? = some c → P c) (hrest : ∀ c, rest.head? = some c → P c) (c : Char)
    (hc : (cs ++ rest).head? = some c) : P c := by
  cases cs with
  | nil => exact hrest c hc
  | cons d cs => exact hcs c hc

/-- Reads a number from behind the digits of its fraction. -/
def readFractionEnd (negative : Bool) (significand : Nat) (exponent : Int) : Reader Number
  | 'e' :: rest => readExponent negative significand exponent rest
  | 'E' :: rest => readExponent negative significand exponent rest
  | rest => endReal negative significand exponent rest

theorem readFractionEnd_of_plain {cs : List Char}
    (h : ∀ c, cs.head? = some c → c ≠ 'e' ∧ c ≠ 'E') (negative : Bool) (significand : Nat)
    (exponent : Int) : readFractionEnd negative significand exponent cs =
      endReal negative significand exponent cs := by
  unfold readFractionEnd
  split
  · exact absurd rfl (h _ rfl).1
  · exact absurd rfl (h _ rfl).2
  · rfl

theorem readFractionEnd_local (negative : Bool) (significand : Nat) (exponent : Int) :
    (readFractionEnd negative significand exponent).Local := by
  intro cs left rest n hrest h
  rcases exponent_cases cs with ⟨behind, rfl⟩ | ⟨behind, rfl⟩ | hplain
  · exact readExponent_local negative significand exponent hrest h
  · exact readExponent_local negative significand exponent hrest h
  · have hstill : ∀ c, (cs ++ rest).head? = some c → c ≠ 'e' ∧ c ≠ 'E' :=
      head?_append_of hplain fun c hc => (hrest c hc).2.2
    rw [readFractionEnd_of_plain hplain] at h
    rw [readFractionEnd_of_plain hstill]
    exact endReal_local _ _ _ hrest h

theorem readFraction_eq {cs : List Char} (h : startsWithDigit cs = true) (negative : Bool)
    (significand : Nat) (exponent : Int) : readFraction negative significand exponent cs =
      readFractionEnd negative (takeDigits significand 0 cs).1
        (exponent - (takeDigits significand 0 cs).2.1)
        ((takeDigits significand 0 cs).2.2.dropWhile Char.isDigit) := by
  unfold readFraction
  rw [h]
  rfl

theorem readFraction_local (negative : Bool) (significand : Nat) (exponent : Int) :
    (readFraction negative significand exponent).Local := by
  intro cs left rest n hrest h
  cases hdigit : startsWithDigit cs with
  | false =>
    unfold readFraction at h
    rw [hdigit] at h
    cases cs with
    | nil => cases h
    | cons c cs => cases h
  | true =>
    have hstill : startsWithDigit (cs ++ rest) = true := by
      rw [startsWithDigit_append hrest]
      exact hdigit
    rw [readFraction_eq hdigit] at h
    rw [readFraction_eq hstill, takeDigits_append hrest]
    dsimp only
    rw [dropDigits_append hrest]
    exact readFractionEnd_local _ _ _ hrest h

/-- A number without fraction and exponent is whole, if all of its digits fit. -/
theorem readTail_of_ends {cs : List Char}
    (h : ∀ c, cs.head? = some c → c ≠ '.' ∧ c ≠ 'e' ∧ c ≠ 'E') (negative : Bool)
    (significand dropped : Nat) : readTail negative significand dropped cs =
      if dropped = 0 then .ok (integerOf negative significand, cs)
      else endReal negative significand dropped cs := by
  unfold readTail
  split
  · exact absurd rfl (h _ rfl).1
  · exact absurd rfl (h _ rfl).2.1
  · exact absurd rfl (h _ rfl).2.2
  · rfl

theorem readTail_local (negative : Bool) (significand dropped : Nat) :
    (readTail negative significand dropped).Local := by
  intro cs left rest n hrest h
  -- The next character decides how the number goes on, and it is the same one.
  by_cases hpoint : ∃ behind, cs = '.' :: behind
  · obtain ⟨behind, rfl⟩ := hpoint
    exact readFraction_local negative significand dropped hrest h
  · rcases exponent_cases cs with ⟨behind, rfl⟩ | ⟨behind, rfl⟩ | hplain
    · exact readExponent_local negative significand dropped hrest h
    · exact readExponent_local negative significand dropped hrest h
    · have hends : ∀ c, cs.head? = some c → c ≠ '.' ∧ c ≠ 'e' ∧ c ≠ 'E' := by
        intro c hc
        refine ⟨?_, hplain c hc⟩
        rintro rfl
        obtain ⟨behind, hcs⟩ := List.head?_eq_some_iff.mp hc
        exact hpoint ⟨behind, hcs⟩
      have hstill : ∀ c, (cs ++ rest).head? = some c → c ≠ '.' ∧ c ≠ 'e' ∧ c ≠ 'E' :=
        head?_append_of hends fun c hc => (hrest c hc).2
      rw [readTail_of_ends hends] at h
      rw [readTail_of_ends hstill]
      by_cases hall : dropped = 0
      · rw [if_pos hall] at h ⊢
        cases h
        rfl
      · rw [if_neg hall] at h ⊢
        exact endReal_local _ _ _ hrest h

section

variable {c : Char} {negative : Bool} {cs : List Char}

theorem readMagnitude_of_none (h : decimalDigit? c = none) :
    readMagnitude negative (c :: cs) = .error (.next .invalidNumber (c :: cs)) := by
  unfold readMagnitude
  simp only [h]

theorem readMagnitude_of_zero (h : decimalDigit? c = some 0) :
    readMagnitude negative (c :: cs) =
      if startsWithDigit cs = true then .error (.next .invalidNumber cs)
      else readTail negative 0 0 cs := by
  unfold readMagnitude
  simp only [h]

theorem readMagnitude_of_digit {d : Nat} (h : decimalDigit? c = some (d + 1)) :
    readMagnitude negative (c :: cs) =
      let digits := takeDigits (d + 1) 1 cs
      let after := digits.2.2.dropWhile Char.isDigit
      readTail negative digits.1 (digits.2.2.length - after.length) after := by
  unfold readMagnitude
  simp only [h]

end

theorem readMagnitude_local (negative : Bool) : (readMagnitude negative).Local := by
  intro cs left rest n hrest h
  cases cs with
  | nil => cases h
  | cons c cs =>
    rw [List.cons_append]
    match hc : decimalDigit? c with
    | none =>
      rw [readMagnitude_of_none hc] at h
      cases h
    | some 0 =>
      rw [readMagnitude_of_zero hc] at h ⊢
      rw [startsWithDigit_append hrest]
      by_cases hdigit : startsWithDigit cs = true
      · rw [if_pos hdigit] at h
        cases h
      · rw [if_neg hdigit] at h ⊢
        exact readTail_local negative 0 0 hrest h
    | some (d + 1) =>
      rw [readMagnitude_of_digit hc] at h ⊢
      rw [takeDigits_append hrest]
      dsimp only at h ⊢
      rw [dropDigits_append hrest, List.length_append, List.length_append,
        Nat.add_sub_add_right]
      exact readTail_local _ _ _ hrest h

/-- What comes behind a number does not change how it is read. -/
theorem readNumber_append {cs left rest : List Char} {n : Number} (hrest : EndsNumber rest)
    (h : readNumber cs = .ok (n, left)) : readNumber (cs ++ rest) = .ok (n, left ++ rest) := by
  cases cs with
  | nil => cases h
  | cons c cs =>
    by_cases hminus : c = '-'
    · subst hminus
      exact readMagnitude_local true hrest h
    · have hplain : ∀ more, readNumber (c :: more) = readMagnitude false (c :: more) := by
        intro more
        unfold readNumber
        split
        · next heq =>
          cases heq
          exact absurd rfl hminus
        · rfl
      rw [hplain] at h
      rw [List.cons_append, hplain]
      exact readMagnitude_local false hrest h

/-- A number begins with a digit or its sign. -/
theorem head_of_readNumber {cs left : List Char} {n : Number}
    (h : readNumber cs = .ok (n, left)) :
    ∃ c behind, cs = c :: behind ∧ (c = '-' ∨ c.isDigit = true) := by
  cases cs with
  | nil => cases h
  | cons c cs =>
    refine ⟨c, cs, rfl, ?_⟩
    by_cases hminus : c = '-'
    · exact .inl hminus
    · right
      unfold readNumber at h
      split at h
      · next heq =>
        cases heq
        exact absurd rfl hminus
      · cases hc : decimalDigit? c with
        | none =>
          rw [readMagnitude_of_none hc] at h
          cases h
        | some d => exact isDigit_of_decimalDigit? hc

/-! ## Whole numbers -/

/-- The digits of a number that fits are all taken. -/
theorem takeDigits_toDigits {n : Nat} (h : n ≤ Harvest.Number.greatestUnsigned64) (taken : Nat)
    (more : List Char) :
    takeDigits 0 taken (Nat.toDigits 10 n ++ more) =
      takeDigits n (taken + (Nat.toDigits 10 n).length) more := by
  induction n using Nat.strongRecOn generalizing taken more with
  | ind n ih =>
    by_cases hsmall : n < 10
    · have hfits : ¬ Harvest.Number.greatestUnsigned64 < 10 * 0 + n := by omega
      rw [Nat.toDigits_of_lt_base hsmall, List.singleton_append, takeDigits,
        decimalDigit?_digitChar hsmall]
      dsimp only
      rw [if_neg hfits, Nat.mul_zero, Nat.zero_add, List.length_singleton]
    · have hlast : n % 10 < 10 := Nat.mod_lt n (by decide)
      have hvalue : 10 * (n / 10) + n % 10 = n := Nat.div_add_mod n 10
      have hfits : ¬ Harvest.Number.greatestUnsigned64 < n := by omega
      -- All digits but the last are those of a tenth of the number.
      have hfront := ih (n / 10) (by omega) (by omega) taken (Nat.digitChar (n % 10) :: more)
      rw [Nat.toDigits_of_base_le (by decide) (Nat.le_of_not_lt hsmall), List.append_assoc,
        List.singleton_append, hfront, takeDigits, decimalDigit?_digitChar hlast]
      dsimp only
      rw [hvalue, if_neg hfits, List.length_append, List.length_singleton, Nat.add_assoc]

/-- A positive number does not begin with a zero. -/
theorem toDigits_head {n : Nat} (h : 0 < n) :
    ∃ c d behind, Nat.toDigits 10 n = c :: behind ∧ decimalDigit? c = some (d + 1) := by
  induction n using Nat.strongRecOn with
  | ind n ih =>
    by_cases hsmall : n < 10
    · refine ⟨Nat.digitChar n, n - 1, [], Nat.toDigits_of_lt_base hsmall, ?_⟩
      rw [decimalDigit?_digitChar hsmall, Nat.sub_add_cancel h]
    · obtain ⟨c, d, behind, hdigits, hc⟩ := ih (n / 10) (by omega) (by omega)
      refine ⟨c, d, behind ++ [Nat.digitChar (n % 10)], ?_, hc⟩
      rw [Nat.toDigits_of_base_le (by decide) (Nat.le_of_not_lt hsmall), hdigits,
        List.cons_append]

theorem takeDigits_of_ends {rest : List Char} (hrest : EndsNumber rest) (significand taken : Nat) :
    takeDigits significand taken rest = (significand, taken, rest) := by
  have hread := takeDigits_append hrest [] significand taken
  rw [List.nil_append] at hread
  exact hread

theorem dropDigits_of_ends {rest : List Char} (hrest : EndsNumber rest) :
    rest.dropWhile Char.isDigit = rest := by
  have hdrop := dropDigits_append hrest []
  rw [List.nil_append] at hdrop
  exact hdrop

theorem readMagnitude_toDigits {n : Nat} (h : n ≤ Harvest.Number.greatestUnsigned64)
    {rest : List Char} (hrest : EndsNumber rest) (negative : Bool) :
    readMagnitude negative (Nat.toDigits 10 n ++ rest) = .ok (integerOf negative n, rest) := by
  have hends : ∀ c, rest.head? = some c → c ≠ '.' ∧ c ≠ 'e' ∧ c ≠ 'E' :=
    fun c hc => (hrest c hc).2
  by_cases hzero : n = 0
  · subst hzero
    have hnot : ¬ startsWithDigit rest = true := by
      have hstart := startsWithDigit_append hrest []
      rw [List.nil_append] at hstart
      rw [hstart]
      exact nofun
    show readMagnitude negative ('0' :: rest) = _
    rw [readMagnitude_of_zero rfl, if_neg hnot, readTail_of_ends hends, if_pos rfl]
  · obtain ⟨c, d, behind, hdigits, hc⟩ := toDigits_head (Nat.pos_of_ne_zero hzero)
    -- The first digit is no zero, and what it leaves of the digits is taken with it.
    have htaken := takeDigits_toDigits h 0 rest
    rw [takeDigits_of_ends hrest, hdigits, List.cons_append, takeDigits, hc] at htaken
    have hfits : ¬ Harvest.Number.greatestUnsigned64 < 10 * 0 + (d + 1) := by
      intro hlarge
      dsimp only at htaken
      rw [if_pos hlarge] at htaken
      obtain ⟨hn, -⟩ := Prod.mk.inj htaken
      exact hzero hn.symm
    dsimp only at htaken
    rw [if_neg hfits, Nat.mul_zero, Nat.zero_add, Nat.zero_add] at htaken
    rw [hdigits, List.cons_append, readMagnitude_of_digit hc, htaken]
    dsimp only
    rw [dropDigits_of_ends hrest, Nat.sub_self, readTail_of_ends hends, if_pos rfl]

/-- A whole number of sixty-four bits is read back. -/
theorem readNumber_integerChars {n : Int} (hleast : Harvest.Number.leastSigned64 ≤ n)
    (hgreatest : n ≤ Harvest.Number.greatestUnsigned64) {rest : List Char}
    (hrest : EndsNumber rest) :
    readNumber (Number.integerChars n ++ rest) = .ok (.integer n, rest) := by
  have hbound : Harvest.Number.leastSigned64 = -9223372036854775808 := by decide
  have hlimit : Harvest.Number.greatestUnsigned64 = 18446744073709551615 := by decide
  unfold Number.integerChars
  by_cases hnegative : n < 0
  · rw [if_pos hnegative, List.cons_append]
    show readMagnitude true (Nat.toDigits 10 n.natAbs ++ rest) = _
    rw [readMagnitude_toDigits (by omega) hrest]
    have hfits : ¬ (n.natAbs = 0 ∨ Harvest.Number.leastSigned64.natAbs < n.natAbs) := by
      rw [hbound]
      omega
    unfold integerOf
    rw [if_neg (by decide), if_neg hfits, show -(n.natAbs : Int) = n by omega]
  · rw [if_neg hnegative]
    have hread := readMagnitude_toDigits (n := n.toNat) (by omega) hrest false
    have hnumber : integerOf false n.toNat = .integer n := by
      unfold integerOf
      rw [if_pos (by decide), show (n.toNat : Int) = n by omega]
    rw [hnumber] at hread
    have hplain : ∀ cs, readMagnitude false cs = .ok (.integer n, rest) →
        readNumber cs = .ok (.integer n, rest) := by
      intro cs hcs
      unfold readNumber
      split
      · -- A minus sign is no digit.
        unfold readMagnitude at hcs
        cases hcs
      · exact hcs
    exact hplain _ hread

end Harvest.Json
