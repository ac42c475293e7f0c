/-
  Harvest.Proofs.Json.Wellformed

  What is printed for a value is a JSON text: passing over a value takes off just the text of the
  value, whatever numbers and strings are in it and however deep it nests (`skipValue_chars`).
  Unlike reading it back, that does not take for granted that numbers are read as they are
  written.
-/
import Harvest.Json.Skip
import Harvest.Proofs.Json.OneLine

namespace Harvest.Json

/-! ## Digits -/

/-- A text of digits, at least one. -/
structure Digits (ds : List Char) : Prop where
  ne : ds ≠ []
  all : ds.all Char.isDigit = true

theorem Digits.cons {d : Char} {ds : List Char} (hd : d.isDigit = true)
    (hds : ds.all Char.isDigit = true) : Digits (d :: ds) where
  ne := List.cons_ne_nil d ds
  all := by simp [hd, hds]

theorem digits_toDigits (n : Nat) : Digits (Nat.toDigits 10 n) where
  ne := by
    by_cases h : n < 10
    · simp [Nat.toDigits_of_lt_base h]
    · simp [Nat.toDigits_of_base_le (by decide) (Nat.le_of_not_lt h)]
  all := List.all_eq_true.mpr fun _ hc => Number.isDigit_of_mem_toDigits hc

theorem startsWithDigit_of_ends {rest : List Char} (hrest : EndsNumber rest) :
    startsWithDigit rest = false := by
  have hstart := startsWithDigit_append hrest []
  rwa [List.nil_append] at hstart

namespace Digits

variable {ds rest : List Char}

theorem startsWithDigit (h : Digits ds) (rest : List Char) :
    startsWithDigit (ds ++ rest) = true := by
  obtain ⟨hne, hall⟩ := h
  cases ds with
  | nil => exact absurd rfl hne
  | cons d ds =>
    simp only [List.all_cons, Bool.and_eq_true] at hall
    exact hall.1

/-- Digits in front of a text that begins with none are passed over. -/
theorem dropWhile (h : Digits ds) (hrest : Json.startsWithDigit rest = false) :
    (ds ++ rest).dropWhile Char.isDigit = rest := by
  have hdropped : rest.dropWhile Char.isDigit = rest := by
    cases rest with
    | nil => rfl
    | cons c rest =>
      have hc : c.isDigit = false := hrest
      simp [hc]
  rw [List.dropWhile_append_of_pos (List.all_eq_true.mp h.all), hdropped]

theorem takeSign (h : Digits ds) (rest : List Char) :
    takeSign (ds ++ rest) = (false, ds ++ rest) := by
  obtain ⟨hne, hall⟩ := h
  cases ds with
  | nil => exact absurd rfl hne
  | cons d ds =>
    simp only [List.all_cons, Bool.and_eq_true] at hall
    have hplus : d ≠ '+' := by
      rintro rfl
      exact absurd hall.1 (by decide)
    have hminus : d ≠ '-' := by
      rintro rfl
      exact absurd hall.1 (by decide)
    simp [Json.takeSign, hplus, hminus]

end Digits

/-! ## Decimal numbers -/

/-- What may stand in front of the digits of an exponent. -/
def IsSign (sign : List Char) : Prop := sign = [] ∨ sign = ['+'] ∨ sign = ['-']

theorem skipExponent?_digits {sign ds rest : List Char} (hsign : IsSign sign) (hds : Digits ds)
    (hrest : EndsNumber rest) :
    skipExponent? ('e' :: (sign ++ (ds ++ rest))) = .ok ((), rest) := by
  have htaken : (takeSign (sign ++ (ds ++ rest))).2 = ds ++ rest := by
    rcases hsign with rfl | rfl | rfl
    · rw [List.nil_append, hds.takeSign]
    · rfl
    · rfl
  simp [skipExponent?, skipExponent, htaken, hds.startsWithDigit,
    hds.dropWhile (startsWithDigit_of_ends hrest)]

theorem skipExponent?_of_ends {rest : List Char} (hrest : EndsNumber rest) :
    skipExponent? rest = .ok ((), rest) := by
  cases rest with
  | nil => rfl
  | cons c rest =>
    obtain ⟨-, -, hlower, hupper⟩ := hrest c rfl
    simp [skipExponent?, hlower, hupper]

theorem skipTail_of_ends {rest : List Char} (hrest : EndsNumber rest) :
    skipTail rest = .ok ((), rest) := by
  cases rest with
  | nil => rfl
  | cons c rest =>
    have hpoint : c ≠ '.' := (hrest c rfl).2.1
    have hskipped := skipExponent?_of_ends hrest
    simpa [skipTail, hpoint] using hskipped

theorem skipTail_fraction {ds rest : List Char} (hds : Digits ds)
    (hrest : startsWithDigit rest = false) :
    skipTail ('.' :: (ds ++ rest)) = skipExponent? rest := by
  simp [skipTail, hds.startsWithDigit, hds.dropWhile hrest]

/-- A whole part is passed over, if a zero in front is all of it. -/
theorem skipMagnitude_digits {ds : List Char} (hds : Digits ds)
    (hzero : ds.head? = some '0' → ds = ['0']) (rest : List Char)
    (hrest : startsWithDigit rest = false) :
    skipMagnitude (ds ++ rest) = skipTail rest := by
  by_cases hhead : ds.head? = some '0'
  · rw [hzero hhead]
    simp [skipMagnitude, hrest]
  · have hstarts := hds.startsWithDigit rest
    have hdropped := hds.dropWhile hrest
    cases ds with
    | nil => exact absurd rfl hds.ne
    | cons d ds =>
      have hd : d ≠ '0' := fun h => hhead (by rw [h]; rfl)
      rw [List.cons_append] at hstarts hdropped ⊢
      simp [skipMagnitude, hd, hstarts, hdropped]

/-- Only zero is written with a zero in front. -/
theorem toDigits_of_head {n : Nat} (h : (Nat.toDigits 10 n).head? = some '0') :
    n = 0 ∧ Nat.toDigits 10 n = ['0'] := by
  have hzero : n = 0 := by
    refine Nat.eq_zero_of_not_pos fun hpos => ?_
    obtain ⟨c, d, behind, hdigits, hc⟩ := toDigits_head hpos
    rw [hdigits] at h
    cases h
    cases hc
  exact ⟨hzero, by rw [hzero]; rfl⟩

/-- The digits of a decimal number with a point somewhere in them. -/
theorem skipMagnitude_point {whole fraction rest : List Char} (hwhole : Digits whole)
    (hzero : whole.head? = some '0' → whole = ['0']) (hfraction : Digits fraction)
    (hrest : EndsNumber rest) :
    skipMagnitude (whole ++ '.' :: (fraction ++ rest)) = .ok ((), rest) := by
  rw [skipMagnitude_digits hwhole hzero _ (by rfl),
    skipTail_fraction hfraction (startsWithDigit_of_ends hrest), skipExponent?_of_ends hrest]

/-- One digit, the digits behind the point if there are any, and an exponent. -/
theorem skipMagnitude_exponent {d : Char} {fraction sign ds rest : List Char}
    (hd : d.isDigit = true) (hfraction : fraction.all Char.isDigit = true) (hsign : IsSign sign)
    (hds : Digits ds) (hrest : EndsNumber rest) :
    skipMagnitude (d :: ((if fraction.isEmpty then [] else '.' :: fraction) ++
      'e' :: (sign ++ (ds ++ rest)))) = .ok ((), rest) := by
  have hlone : ([d].head? = some '0' → [d] = ['0']) := by
    intro h
    cases h
    rfl
  have hone : Digits [d] := .cons hd rfl
  have hexponent := skipExponent?_digits hsign hds hrest
  cases fraction with
  | nil =>
    exact (skipMagnitude_digits hone hlone ('e' :: _) rfl).trans hexponent
  | cons f fraction =>
    refine (skipMagnitude_digits hone hlone ('.' :: (f :: fraction ++ 'e' :: _)) rfl).trans ?_
    rw [skipTail_fraction ⟨List.cons_ne_nil f fraction, hfraction⟩ (by rfl), hexponent]

/-- A zero has no powers of ten. -/
def Plain (d : Harvest.Number.Decimal) : Prop := d.digits = 0 → d.exponent = 0

theorem skipMagnitude_text (style : Harvest.Number.Style) {d : Harvest.Number.Decimal}
    (hd : Plain d) {rest : List Char} (hrest : EndsNumber rest) :
    skipMagnitude (d.text style ++ rest) = .ok ((), rest) := by
  have hds := digits_toDigits d.digits
  have hzero := @toDigits_of_head d.digits
  unfold Harvest.Number.Decimal.text
  dsimp only
  generalize Nat.toDigits 10 d.digits = ds at hds hzero
  have hall := List.all_eq_true.mp hds.all
  have hpos : 0 < ds.length := List.length_pos_iff.mpr hds.ne
  split
  · split
    · -- All digits are behind the point.
      have hfraction :
          Digits (List.replicate (-(d.exponent + ds.length - 1) - 1).toNat '0' ++ ds) :=
        ⟨by simp [hds.ne], by simp [hds.all]⟩
      have hpoint := skipMagnitude_point (.cons rfl rfl) (fun _ => rfl) hfraction hrest
      simpa using hpoint
    · split
      · -- All digits are in front of it, with zeros if the number has powers of ten.
        have hwhole : Digits (ds ++ List.replicate d.exponent.toNat '0') :=
          ⟨by simp [hds.ne], by simp [hds.all]⟩
        have hlone : (ds ++ List.replicate d.exponent.toNat '0').head? = some '0' →
            ds ++ List.replicate d.exponent.toNat '0' = ['0'] := by
          intro hhead
          have hfront : ds.head? = some '0' := by
            obtain ⟨c, cs, rfl⟩ := List.exists_cons_of_ne_nil hds.ne
            exact hhead
          obtain ⟨hdigits, hone⟩ := hzero hfront
          simp [hone, hd hdigits]
        have hfraction : Digits ['0'] := .cons rfl rfl
        have hpoint := skipMagnitude_point hwhole hlone hfraction hrest
        simpa using hpoint
      · next hfirst hexponent =>
        obtain ⟨k, hk⟩ : ∃ k : Nat, d.exponent + ds.length - 1 = k :=
          ⟨_, (Int.toNat_of_nonneg (by omega)).symm⟩
        have hwhole : Digits (ds.take (k + 1)) :=
          ⟨by simp [hds.ne], List.all_eq_true.mpr fun c hc => hall c (List.mem_of_mem_take hc)⟩
        have hfraction : Digits (ds.drop (k + 1)) :=
          ⟨by simp; omega, List.all_eq_true.mpr fun c hc => hall c (List.mem_of_mem_drop hc)⟩
        have hlone : (ds.take (k + 1)).head? = some '0' → ds.take (k + 1) = ['0'] := by
          intro hhead
          rw [List.head?_take, if_neg (Nat.succ_ne_zero k)] at hhead
          -- Zero has one digit, and that is in front of the point.
          simp [(hzero hhead).2]
        have hpoint := skipMagnitude_point hwhole hlone hfraction hrest
        rw [hk]
        simpa using hpoint
  · obtain ⟨c, fraction, rfl⟩ := List.exists_cons_of_ne_nil hds.ne
    have hfraction : fraction.all Char.isDigit = true :=
      List.all_eq_true.mpr fun f hf => hall f (List.mem_cons_of_mem c hf)
    have hsign : IsSign (if d.exponent + (c :: fraction).length - 1 < 0 then ['-']
        else if style.plus = true then ['+'] else []) := by
      unfold IsSign
      split
      · simp
      · split <;> simp
    have hexponent := skipMagnitude_exponent (hall c List.mem_cons_self) hfraction hsign
      (digits_toDigits (d.exponent + (c :: fraction).length - 1).natAbs) hrest
    simpa using hexponent

/-! ## Floating-point numbers -/

section

open Harvest.Number

theorem scaled_denominator_pos (mantissa base : Nat) (exponent : Int) (h : 0 < base) :
    0 < (Ratio.scaled mantissa base exponent).denominator := by
  unfold Ratio.scaled
  split
  · exact Nat.one_pos
  · exact power_pos h _

theorem scaled_numerator_pos {mantissa base : Nat} (exponent : Int) (hmantissa : 0 < mantissa)
    (h : 0 < base) : 0 < (Ratio.scaled mantissa base exponent).numerator := by
  unfold Ratio.scaled
  split
  · exact Nat.mul_pos hmantissa (power_pos h _)
  · exact hmantissa

theorem scaled_zero_numerator (base : Nat) (exponent : Int) :
    (Ratio.scaled 0 base exponent).numerator = 0 := by
  unfold Ratio.scaled
  split
  · exact Nat.zero_mul _
  · rfl

/-- No zero reads back as a positive value. -/
theorem digits_ne_zero_of_contains {i : Interval} {d : Decimal} (hpos : 0 < i.least.numerator)
    (h : i.contains d = true) : d.digits ≠ 0 := by
  intro hzero
  have hdenominator := scaled_denominator_pos 0 10 d.exponent (by decide)
  have hnumerator := scaled_zero_numerator 10 d.exponent
  have hproduct := Nat.mul_pos hpos hdenominator
  unfold Interval.contains at h
  rw [hzero] at h
  dsimp only at h
  split at h
  · simp [Ratio.le, hnumerator] at h
    omega
  · simp [Ratio.lt, hnumerator] at h

/-- Dropping zeros leaves other digits. -/
theorem plain_trimZeros (fuel : Nat) {d : Decimal} (h : Plain d) :
    Plain (d.trimZeros fuel) := by
  induction fuel generalizing d with
  | zero => exact h
  | succ fuel ih =>
    unfold Decimal.trimZeros
    split
    · next hdigits =>
      refine ih fun hzero => ?_
      have hzero : d.digits / 10 = 0 := hzero
      omega
    · exact h

theorem plain_shortest {mantissa : Nat} (h : mantissa ≠ 0) (exponent : Int) (lowest : Bool) :
    Plain (shortest mantissa exponent lowest) := by
  have hleast : 0 < (Interval.around mantissa exponent lowest).least.numerator := by
    refine scaled_numerator_pos _ ?_ (by decide)
    split <;> omega
  unfold shortest
  dsimp only
  refine plain_trimZeros 18 ?_
  -- What is found reads back, and zero stands for nothing found.
  cases hfound : (List.range 17).findSome? _ with
  | none => exact fun _ => rfl
  | some d =>
    intro hzero
    obtain ⟨k, -, hk⟩ := List.exists_of_findSome?_eq_some hfound
    have hcontains := List.find?_some hk
    exact absurd hzero (digits_ne_zero_of_contains hleast hcontains)

end

/-! ## The first character of a value -/

variable {items fields : Reader Unit} {rest : List Char}

theorem skipBy_digit {c : Char} (h : c.isDigit = true) (items fields : Reader Unit)
    (cs : List Char) : skipBy items fields (c :: cs) = skipMagnitude (c :: cs) := by
  have hn : ¬ c = 'n' := ne_of_beginsNumber (.inr h) (by decide)
  have ht : ¬ c = 't' := ne_of_beginsNumber (.inr h) (by decide)
  have hf : ¬ c = 'f' := ne_of_beginsNumber (.inr h) (by decide)
  have hquote : ¬ c = '"' := ne_of_beginsNumber (.inr h) (by decide)
  have hbracket : ¬ c = '[' := ne_of_beginsNumber (.inr h) (by decide)
  have hbrace : ¬ c = '\x7b' := ne_of_beginsNumber (.inr h) (by decide)
  have hminus : ¬ c = '-' := by
    rintro rfl
    cases h
  unfold skipBy
  rw [skipSpace_cons (isSpace_of_beginsNumber (.inr h))]
  dsimp only
  rw [if_neg hn, if_neg ht, if_neg hf, if_neg hquote, if_neg hbracket, if_neg hbrace,
    if_neg hminus, if_pos h]

/-- What is passed over as a number without a sign begins with a digit. -/
theorem skipBy_of_magnitude {cs left : List Char} (h : skipMagnitude cs = .ok ((), left)) :
    skipBy items fields cs = .ok ((), left) := by
  cases cs with
  | nil => cases h
  | cons c cs =>
    cases hdigit : c.isDigit with
    | true => rw [skipBy_digit hdigit, h]
    | false =>
      have hzero : c ≠ '0' := by
        rintro rfl
        cases hdigit
      simp [skipMagnitude, hzero, startsWithDigit, hdigit] at h

/-- A number is passed over, with its sign if it has one. -/
theorem skipBy_signed {cs : List Char} (h : skipMagnitude (cs ++ rest) = .ok ((), rest))
    (negative : Bool) :
    skipBy items fields ((if negative then '-' :: cs else cs) ++ rest) = .ok ((), rest) := by
  cases negative with
  | true => exact h
  | false => exact skipBy_of_magnitude h

theorem skipBy_number (n : Number) (hrest : EndsNumber rest) :
    skipBy items fields (n.chars ++ rest) = .ok ((), rest) := by
  have hend := startsWithDigit_of_ends hrest
  cases n with
  | integer n =>
    have hdigits : ∀ k, skipMagnitude (Nat.toDigits 10 k ++ rest) = .ok ((), rest) := by
      intro k
      rw [skipMagnitude_digits (digits_toDigits k) (fun h => (toDigits_of_head h).2) _ hend,
        skipTail_of_ends hrest]
    show skipBy items fields (Number.integerChars n ++ rest) = _
    unfold Number.integerChars
    split
    · exact hdigits n.natAbs
    · exact skipBy_of_magnitude (hdigits n.toNat)
  | real x =>
    show skipBy items fields ((Harvest.Number.floatText? Number.style x).getD _ ++ rest) = _
    unfold Harvest.Number.floatText?
    split
    · next negative mantissa exponent lowest _ =>
      dsimp only [Option.getD_some]
      refine skipBy_signed ?_ negative
      split
      · exact skipMagnitude_point (.cons rfl rfl) (fun _ => rfl) (.cons rfl rfl) hrest
      · next hmantissa =>
        exact skipMagnitude_text _ (plain_shortest hmantissa exponent lowest) hrest
    · rfl

/-! ## Strings -/

/-- A character in a string is passed over as it is written there. -/
theorem skipStringFrom_escapeChar (fuel : Nat) (c : Char) (rest : List Char) :
    skipStringFrom (fuel + 1) (escapeChar c ++ rest) = skipStringFrom fuel rest := by
  unfold escapeChar
  split
  -- The escapes of one letter.
  · rfl
  · rfl
  · rfl
  · rfl
  · rfl
  · rfl
  · rfl
  · next hquote hbackslash _ _ _ _ _ =>
    split
    · next hcontrol =>
      have hescape : skipEscape ('u' :: '0' :: '0' :: Nat.digitChar (c.toNat / 16) ::
          Nat.digitChar (c.toNat % 16) :: rest) = .ok ((), rest) :=
        bind_of_ok (readHex_control hcontrol rest) _
      show skipStringFrom (fuel + 1) ('\\' :: _) = _
      rw [skipStringFrom, if_neg (by decide), if_pos rfl]
      exact bind_of_ok hescape _
    · next hplain =>
      have hnotQuote : ¬ c = '"' := fun h => hquote h
      have hnotBackslash : ¬ c = '\\' := fun h => hbackslash h
      show skipStringFrom (fuel + 1) (c :: rest) = _
      rw [skipStringFrom, if_neg hnotQuote, if_neg hnotBackslash, if_neg hplain]

theorem skipStringFrom_chars {fuel : Nat} (cs rest : List Char) (h : cs.length < fuel) :
    skipStringFrom fuel (cs.flatMap escapeChar ++ '"' :: rest) = .ok ((), rest) := by
  induction cs generalizing fuel with
  | nil =>
    obtain ⟨spare, rfl⟩ : ∃ spare, fuel = spare + 1 := ⟨fuel - 1, by omega⟩
    rw [List.flatMap_nil, List.nil_append, skipStringFrom, if_pos rfl]
  | cons c cs ih =>
    obtain ⟨spare, rfl⟩ : ∃ spare, fuel = spare + 1 := ⟨fuel - 1, by omega⟩
    have hshorter : cs.length < spare := by
      rw [List.length_cons] at h
      omega
    rw [List.flatMap_cons, List.append_assoc, skipStringFrom_escapeChar, ih hshorter]

/-- A string is passed over, whatever comes behind it. -/
theorem skipString_chars (s : String) (rest : List Char) :
    skipString (s.toList.flatMap escapeChar ++ '"' :: rest) = .ok ((), rest) := by
  have hlength := length_le_length_escaped s.toList
  unfold skipString
  exact skipStringFrom_chars s.toList rest (by rw [List.length_append]; omega)

/-! ## Arrays and objects -/

/-- Texts with commas between them. -/
def joined : List (List Char) → List Char
  | [] => []
  | t :: ts => t ++ ts.flatMap (',' :: ·)

theorem moreItems_eq (vs : List Json) : moreItems vs = (vs.map chars).flatMap (',' :: ·) := by
  induction vs with
  | nil => rfl
  | cons v vs ih => rw [moreItems, itemChars_cons, ih, List.map_cons, List.flatMap_cons]; rfl

theorem itemChars_eq (vs : List Json) : itemChars vs = joined (vs.map chars) := by
  cases vs with
  | nil => rfl
  | cons v vs => rw [itemChars_cons, moreItems_eq]; rfl

/-- The text of a field. -/
def fieldText (field : String × Json) : List Char :=
  stringChars field.1 ++ ':' :: field.2.chars

theorem moreFields_eq (fs : Fields) : moreFields fs = (fs.map fieldText).flatMap (',' :: ·) := by
  induction fs with
  | nil => rfl
  | cons f fs ih =>
    rw [moreFields, fieldChars_cons, ih, List.map_cons, List.flatMap_cons, fieldText]
    simp

theorem fieldChars_eq (fs : Fields) : fieldChars fs = joined (fs.map fieldText) := by
  cases fs with
  | nil => rfl
  | cons f fs =>
    rw [fieldChars_cons, moreFields_eq, List.map_cons, joined, fieldText]
    simp

/-- A text that is passed over as a part of an array or object with a closing bracket. -/
structure IsPart (close : Char) (part : Reader Unit) (t : List Char) : Prop where
  begins : ∃ c cs, t = c :: cs ∧ isSpace c = false ∧ c ≠ close
  skipped : ∀ rest, EndsNumber rest → part (t ++ rest) = .ok ((), rest)

section

variable {close : Char} {part : Reader Unit} {ts : List (List Char)}
  (hclose : close = ']' ∨ close = '\x7d') (h : ∀ t ∈ ts, IsPart close part t)
  (ended missing : Cause)

include hclose

theorem isSpace_close : isSpace close = false := by
  rcases hclose with rfl | rfl <;> rfl

theorem endsNumber_parts (ts : List (List Char)) (rest : List Char) :
    EndsNumber (ts.flatMap (',' :: ·) ++ close :: rest) := by
  cases ts with
  | nil =>
    refine .cons ?_ rest
    rcases hclose with rfl | rfl <;> decide
  | cons t ts => exact .cons (by decide) _

include h

theorem skipParts_more {fuel : Nat} (hfuel : ts.length < fuel) (rest : List Char) :
    skipParts close ended missing part fuel false (ts.flatMap (',' :: ·) ++ close :: rest) =
      .ok ((), rest) := by
  induction ts generalizing fuel with
  | nil =>
    obtain ⟨spare, rfl⟩ : ∃ spare, fuel = spare + 1 := ⟨fuel - 1, by omega⟩
    simp [skipParts, skipSpace_cons (isSpace_close hclose)]
  | cons t ts ih =>
    obtain ⟨spare, rfl⟩ : ∃ spare, fuel = spare + 1 := ⟨fuel - 1, by omega⟩
    have hcomma : ',' ≠ close := by rcases hclose with rfl | rfl <;> decide
    have hfirst := (h t List.mem_cons_self).skipped _ (endsNumber_parts hclose ts rest)
    have hspare : ts.length < spare := by simpa using hfuel
    have hothers := ih (fun u hu => h u (List.mem_cons_of_mem t hu)) hspare
    simp only [List.flatMap_cons, List.cons_append, List.append_assoc, skipParts,
      skipSpace_cons (show isSpace ',' = false from rfl), hcomma, if_false, if_true]
    refine (bind_of_ok hfirst _).trans ?_
    exact hothers

/-- The parts are passed over up to the closing bracket. -/
theorem skipParts_joined {fuel : Nat} (hfuel : ts.length < fuel) (rest : List Char) :
    skipParts close ended missing part fuel true (joined ts ++ close :: rest) =
      .ok ((), rest) := by
  obtain ⟨spare, rfl⟩ : ∃ spare, fuel = spare + 1 := ⟨fuel - 1, by omega⟩
  cases ts with
  | nil => simp [joined, skipParts, skipSpace_cons (isSpace_close hclose)]
  | cons t ts =>
    obtain ⟨c, cs, rfl, hspace, hne⟩ := (h t List.mem_cons_self).begins
    have hfirst := (h _ List.mem_cons_self).skipped _ (endsNumber_parts hclose ts rest)
    have hspare : ts.length < spare := by simpa using hfuel
    have hothers := skipParts_more hclose (fun u hu => h u (List.mem_cons_of_mem _ hu)) ended
      missing hspare rest
    simp only [joined, List.cons_append, List.append_assoc, skipParts, skipSpace_cons hspace,
      hne, if_false, if_true]
    refine (bind_of_ok hfirst _).trans ?_
    exact hothers

omit hclose in
theorem length_le_length_joined : ts.length ≤ (joined ts).length := by
  cases ts with
  | nil => exact Nat.zero_le _
  | cons t ts =>
    obtain ⟨c, cs, rfl, -, -⟩ := (h t List.mem_cons_self).begins
    have hmore : ts.length ≤ (ts.flatMap (',' :: ·)).length := by
      clear h
      induction ts with
      | nil => exact Nat.zero_le _
      | cons t ts ih => simp only [List.flatMap_cons, List.length_append, List.length_cons]; omega
    simp only [joined, List.length_append, List.length_cons]
    omega

end

/-! ## Values -/

/-- The text of a value begins with no blank, and not as an array or object ends. -/
theorem chars_begin (v : Json) :
    ∃ c cs, v.chars = c :: cs ∧ isSpace c = false ∧ c ≠ ']' ∧ c ≠ '\x7d' := by
  match v with
  | .null => exact ⟨'n', _, rfl, by decide⟩
  | .bool true => exact ⟨'t', _, rfl, by decide⟩
  | .bool false => exact ⟨'f', _, rfl, by decide⟩
  | .number n =>
    have hskipped : skipBy skipValue skipValue (n.chars ++ []) = .ok ((), []) :=
      skipBy_number n .nil
    have hbare := Number.isBare_chars n
    show ∃ c cs, n.chars = c :: cs ∧ _
    cases hchars : n.chars with
    | nil =>
      rw [hchars] at hskipped
      cases hskipped
    | cons c cs =>
      rw [hchars, List.all_cons, Bool.and_eq_true] at hbare
      have hne : ∀ d, Number.isBare d = false → c ≠ d := by
        rintro d hd rfl
        rw [hbare.1] at hd
        cases hd
      refine ⟨c, cs, rfl, ?_, hne _ rfl, hne _ rfl⟩
      simp [isSpace, hne ' ' rfl, hne '\n' rfl, hne '\t' rfl, hne '\r' rfl]
  | .string s => exact ⟨'"', _, rfl, by decide⟩
  | .array items => exact ⟨'[', _, rfl, by decide⟩
  | .object fields => exact ⟨'\x7b', _, rfl, by decide⟩

/-- A name and its colon are passed over. -/
theorem skipName_chars (name : String) (cs : List Char) :
    skipName (stringChars name ++ ':' :: cs) = .ok ((), cs) := by
  rw [stringChars_append]
  refine (bind_of_ok (skipString_chars name (':' :: cs)) _).trans ?_
  exact readColon_cons cs

theorem skipItems_chars {value : Reader Unit} {vs : List Json}
    (h : ∀ v ∈ vs, ∀ rest, EndsNumber rest → value (v.chars ++ rest) = .ok ((), rest))
    (rest : List Char) : skipItems value (itemChars vs ++ ']' :: rest) = .ok ((), rest) := by
  have hparts : ∀ t ∈ vs.map chars, IsPart ']' value t := by
    intro t ht
    obtain ⟨v, hv, rfl⟩ := List.mem_map.mp ht
    obtain ⟨c, cs, hchars, hspace, hne, -⟩ := chars_begin v
    exact ⟨⟨c, cs, hchars, hspace, hne⟩, h v hv⟩
  have hlength := length_le_length_joined hparts
  unfold skipItems
  rw [itemChars_eq]
  exact skipParts_joined (.inl rfl) hparts _ _ (by rw [List.length_append]; omega) rest

theorem skipFields_chars {value : Reader Unit} {fs : Fields}
    (h : ∀ f ∈ fs, ∀ rest, EndsNumber rest → value (f.2.chars ++ rest) = .ok ((), rest))
    (rest : List Char) :
    skipFields value (fieldChars fs ++ '\x7d' :: rest) = .ok ((), rest) := by
  have hparts : ∀ t ∈ fs.map fieldText,
      IsPart '\x7d' (fun cs => skipName cs >>= fun named => value named.2) t := by
    intro t ht
    obtain ⟨f, hf, rfl⟩ := List.mem_map.mp ht
    refine ⟨⟨'"', _, rfl, by decide⟩, ?_⟩
    intro rest hrest
    rw [fieldText, List.append_assoc, List.cons_append]
    refine (bind_of_ok (skipName_chars f.1 (f.2.chars ++ rest)) _).trans ?_
    exact h f hf rest hrest
  have hlength := length_le_length_joined hparts
  unfold skipFields
  rw [fieldChars_eq]
  exact skipParts_joined (.inr rfl) hparts _ _ (by rw [List.length_append]; omega) rest

theorem skipLevels_chars {levels : Nat} {v : Json} (hdepth : v.depth < levels)
    (hrest : EndsNumber rest) : skipLevels levels (v.chars ++ rest) = .ok ((), rest) := by
  -- The parts of an array or an object nest one level less.
  induction levels generalizing v rest with
  | zero => cases hdepth
  | succ levels ih =>
    match v with
    | .null => rfl
    | .bool true => rfl
    | .bool false => rfl
    | .number n => exact skipBy_number n hrest
    | .string s =>
      show skipBy _ _ (stringChars s ++ rest) = _
      rw [stringChars_append]
      exact skipString_chars s rest
    | .array vs =>
      have hinner : depthItems vs < levels := Nat.lt_of_succ_lt_succ hdepth
      show skipBy _ _ (('[' :: itemChars vs ++ [']']) ++ rest) = _
      rw [List.append_assoc, List.singleton_append, List.cons_append]
      exact skipItems_chars (fun v hv rest hrest =>
        ih (Nat.lt_of_le_of_lt (depth_le_of_mem_items hv) hinner) hrest) rest
    | .object fs =>
      have hinner : depthFields fs < levels := Nat.lt_of_succ_lt_succ hdepth
      show skipBy _ _ (('\x7b' :: fieldChars fs ++ ['\x7d']) ++ rest) = _
      rw [List.append_assoc, List.singleton_append, List.cons_append]
      exact skipFields_chars (fun f hf rest hrest =>
        ih (Nat.lt_of_le_of_lt (depth_le_of_mem_fields hf) hinner) hrest) rest

theorem depthItems_le_length {vs : List Json} (h : ∀ v ∈ vs, v.depth ≤ v.chars.length) :
    depthItems vs ≤ (itemChars vs).length := by
  induction vs with
  | nil => exact Nat.zero_le _
  | cons v vs ih =>
    have hv := h v List.mem_cons_self
    have hvs := ih fun w hw => h w (List.mem_cons_of_mem v hw)
    have hmore := length_le_length_moreItems vs
    rw [depthItems, itemChars_cons, List.length_append]
    omega

theorem depthFields_le_length {fs : Fields} (h : ∀ f ∈ fs, f.2.depth ≤ f.2.chars.length) :
    depthFields fs ≤ (fieldChars fs).length := by
  induction fs with
  | nil => exact Nat.zero_le _
  | cons f fs ih =>
    obtain ⟨name, v⟩ := f
    have hv : v.depth ≤ v.chars.length := h (name, v) List.mem_cons_self
    have hfs := ih fun g hg => h g (List.mem_cons_of_mem _ hg)
    have hmore := length_le_length_moreFields fs
    rw [depthFields, fieldChars_cons]
    simp only [List.length_append, List.length_cons]
    omega

/-- A value nests no more levels than its text has characters. -/
theorem depth_le_length_chars (v : Json) : v.depth ≤ v.chars.length := by
  induction v using parts_induction with
  | null => exact Nat.zero_le _
  | bool b => exact Nat.zero_le _
  | number n => exact Nat.zero_le _
  | string s => exact Nat.zero_le _
  | array vs ih =>
    have hitems := depthItems_le_length ih
    simp only [depth, chars, List.length_append, List.length_cons]
    omega
  | object fs ih =>
    have hfields := depthFields_le_length ih
    simp only [depth, chars, List.length_append, List.length_cons]
    omega

/-- The text of a value is passed over as a JSON text. -/
theorem skipValue_chars (v : Json) (hrest : EndsNumber rest) :
    skipValue (v.chars ++ rest) = .ok ((), rest) := by
  have hdepth := depth_le_length_chars v
  unfold skipValue
  exact skipLevels_chars (by rw [List.length_append]; omega) hrest

end Harvest.Json
