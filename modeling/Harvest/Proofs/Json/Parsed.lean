/-
  Harvest.Proofs.Json.Parsed

  What reading a text can give. Whole numbers fit sixty-four bits, and the fields of every object
  are in order of their names (`parsed_ofChars`). So all that a value that was read needs to be read
  back is that its floating-point numbers are (`Parsed.readsBack`).
-/
import Harvest.Proofs.Json.RoundTrip

namespace Harvest

/-- A whole number of sixty-four bits, with or without a sign. -/
def Number.Fits (n : Int) : Prop :=
  Harvest.Number.leastSigned64 ≤ n ∧ n ≤ Harvest.Number.greatestUnsigned64

namespace Json

/-- A value as reading a text gives it. -/
structure Parsed (v : Json) : Prop where
  fits : ∀ n, Within (ofInt n) v → Number.Fits n
  ordered : ∀ fields, Within (.object fields) v → Fields.Ordered fields

theorem readsBack_of_fits {n : Int} (h : Number.Fits n) : (Number.integer n).ReadsBack := by
  have hread := readNumber_integerChars h.1 h.2 .nil
  rw [List.append_nil] at hread
  exact hread

/-- A value that was read is read back if its floating-point numbers are. -/
theorem Parsed.readsBack {v : Json} (h : v.Parsed)
    (hreal : ∀ x, Within (.number (.real x)) v → (Number.real x).ReadsBack) : v.ReadsBack where
  numbers := by
    intro n hn
    cases n with
    | integer n => exact readsBack_of_fits (h.fits n hn)
    | real x => exact hreal x hn
  ordered := h.ordered

/-- A value that was read can be read again if its floating-point numbers can. -/
theorem Parsed.readable {v : Json} (h : v.Parsed)
    (hreal : ∀ x, Within (.number (.real x)) v → (Number.real x).IsRead) : v.Readable where
  numbers := by
    intro n hn
    cases n with
    | integer n => exact (readsBack_of_fits (h.fits n hn)).isRead
    | real x => exact hreal x hn
  ordered := h.ordered

/-! ## Numbers -/

theorem takeDigits_le {significand : Nat} (h : significand ≤ Harvest.Number.greatestUnsigned64)
    (taken : Nat) (cs : List Char) :
    (takeDigits significand taken cs).1 ≤ Harvest.Number.greatestUnsigned64 := by
  induction cs generalizing significand taken with
  | nil => exact h
  | cons c cs ih =>
    rw [takeDigits]
    cases decimalDigit? c with
    | none => exact h
    | some d =>
      dsimp only
      by_cases hfull : Harvest.Number.greatestUnsigned64 < 10 * significand + d
      · rw [if_pos hfull]
        exact h
      · rw [if_neg hfull]
        exact ih (Nat.le_of_not_lt hfull) _

theorem fits_integerOf {negative : Bool} {significand : Nat} {n : Int}
    (h : significand ≤ Harvest.Number.greatestUnsigned64)
    (hn : integerOf negative significand = .integer n) : Number.Fits n := by
  have hleast : Harvest.Number.leastSigned64 = -9223372036854775808 := by decide
  have hgreatest : Harvest.Number.greatestUnsigned64 = 18446744073709551615 := by decide
  unfold integerOf at hn
  split at hn
  · cases hn
    constructor
    · omega
    · exact Int.ofNat_le.mpr h
  · split at hn
    · cases hn
    · next hsmall =>
      cases hn
      rw [hleast] at hsmall
      constructor
      · omega
      · omega

theorem real_of_endReal {negative : Bool} {significand : Nat} {exponent : Int}
    {cs left : List Char} {n : Number}
    (h : endReal negative significand exponent cs = .ok (n, left)) : ∃ x, n = .real x := by
  unfold endReal at h
  split at h
  · cases h
    exact ⟨_, rfl⟩
  · cases h

theorem real_of_readExponent {negative : Bool} {significand : Nat} {exponent : Int}
    {cs left : List Char} {n : Number}
    (h : readExponent negative significand exponent cs = .ok (n, left)) : ∃ x, n = .real x := by
  unfold readExponent at h
  dsimp only at h
  split at h
  · cases h
  · split at h
    · cases h
    · split at h
      · exact real_of_endReal h
      · split at h
        · cases h
        · cases h
          exact ⟨_, rfl⟩

theorem real_of_readFraction {negative : Bool} {significand : Nat} {exponent : Int}
    {cs left : List Char} {n : Number}
    (h : readFraction negative significand exponent cs = .ok (n, left)) : ∃ x, n = .real x := by
  cases hdigit : startsWithDigit cs with
  | false =>
    unfold readFraction at h
    rw [hdigit] at h
    cases cs with
    | nil => cases h
    | cons c cs => cases h
  | true =>
    rw [readFraction_eq hdigit] at h
    unfold readFractionEnd at h
    split at h
    · exact real_of_readExponent h
    · exact real_of_readExponent h
    · exact real_of_endReal h

theorem fits_readTail {negative : Bool} {significand dropped : Nat} {cs left : List Char} {n : Int}
    (hsignificand : significand ≤ Harvest.Number.greatestUnsigned64)
    (h : readTail negative significand dropped cs = .ok (.integer n, left)) : Number.Fits n := by
  unfold readTail at h
  split at h
  · obtain ⟨x, hx⟩ := real_of_readFraction h
    cases hx
  · obtain ⟨x, hx⟩ := real_of_readExponent h
    cases hx
  · obtain ⟨x, hx⟩ := real_of_readExponent h
    cases hx
  · split at h
    · injection h with h
      injection h with h
      exact fits_integerOf hsignificand h
    · obtain ⟨x, hx⟩ := real_of_endReal h
      cases hx

theorem fits_readMagnitude {negative : Bool} {cs left : List Char} {n : Int}
    (h : readMagnitude negative cs = .ok (.integer n, left)) : Number.Fits n := by
  cases cs with
  | nil => cases h
  | cons c cs =>
    match hc : decimalDigit? c with
    | none =>
      rw [readMagnitude_of_none hc] at h
      cases h
    | some 0 =>
      rw [readMagnitude_of_zero hc] at h
      split at h
      · cases h
      · exact fits_readTail (Nat.zero_le _) h
    | some (d + 1) =>
      -- A single digit is nine at most, and no more digits are taken than fit.
      have hdigit : d + 1 ≤ Harvest.Number.greatestUnsigned64 := by
        have hc' : c.isDigit = true := isDigit_of_decimalDigit? hc
        unfold decimalDigit? at hc
        rw [if_pos hc'] at hc
        have hvalue := Option.some.inj hc
        have hlimit : Harvest.Number.greatestUnsigned64 = 18446744073709551615 := by decide
        have hnine : c.toNat ≤ 57 := by
          have hrange : 48 ≤ c.val ∧ c.val ≤ 57 := by simpa [Char.isDigit] using hc'
          exact UInt32.le_iff_toNat_le.mp hrange.2
        omega
      rw [readMagnitude_of_digit hc] at h
      exact fits_readTail (takeDigits_le hdigit _ _) h

/-- A whole number that is read fits sixty-four bits. -/
theorem fits_readNumber {cs left : List Char} {n : Int}
    (h : readNumber cs = .ok (.integer n, left)) : Number.Fits n := by
  unfold readNumber at h
  split at h
  · exact fits_readMagnitude h
  · exact fits_readMagnitude h

/-! ## Fields -/

end Json

namespace Fields

theorem mem_insert {fields : Fields} {name : String} {value : Json} {e : String × Json}
    (h : e ∈ fields.insert name value) : e = (name, value) ∨ e ∈ fields := by
  induction fields with
  | nil => exact .inl (List.mem_singleton.mp h)
  | cons f fields ih =>
    obtain ⟨k, v⟩ := f
    unfold insert at h
    split at h
    · rcases List.mem_cons.mp h with h | h
      · exact .inl h
      · exact .inr (List.mem_cons_of_mem _ h)
    · split at h
      · rcases List.mem_cons.mp h with h | h
        · exact .inl h
        · exact .inr h
      · rcases List.mem_cons.mp h with rfl | h
        · exact .inr List.mem_cons_self
        · rcases ih h with h | h
          · exact .inl h
          · exact .inr (List.mem_cons_of_mem _ h)

/-- Setting a field keeps the fields in order. -/
theorem Ordered.insert {fields : Fields} (h : Ordered fields) (name : String) (value : Json) :
    Ordered (fields.insert name value) := by
  induction fields with
  | nil => exact List.pairwise_singleton _ _
  | cons f fields ih =>
    obtain ⟨k, v⟩ := f
    obtain ⟨hleast, hrest⟩ := List.pairwise_cons.mp h
    unfold Fields.insert
    by_cases hsame : name = k
    · rw [if_pos hsame]
      subst hsame
      exact List.pairwise_cons.mpr ⟨hleast, hrest⟩
    · rw [if_neg hsame]
      by_cases hless : name < k
      · rw [if_pos hless]
        -- The field comes in front of all the others.
        refine List.pairwise_cons.mpr ⟨?_, h⟩
        intro e he
        rcases List.mem_cons.mp he with rfl | he
        · exact hless
        · exact String.lt_trans hless (hleast e he)
      · rw [if_neg hless]
        -- The field comes somewhere behind this one, which stays in front.
        have hgreater : k < name := by
          rw [← String.not_le]
          intro hle
          exact hsame (String.le_antisymm hle (String.not_lt.mp hless))
        refine List.pairwise_cons.mpr ⟨?_, ih hrest⟩
        intro e he
        rcases mem_insert he with rfl | he
        · exact hgreater
        · exact hleast e he

/-- Setting several fields keeps the fields in order. -/
theorem Ordered.insertAll {fields : Fields} (h : fields.Ordered) (pairs : List (String × Json)) :
    (fields.insertAll pairs).Ordered := by
  induction pairs generalizing fields with
  | nil => exact h
  | cons pair pairs ih => exact ih (h.insert pair.1 pair.2)

/-- No name is there twice among fields that are in order. -/
theorem Ordered.nodup {fields : Fields} (h : fields.Ordered) : (fields.map Prod.fst).Nodup := by
  refine List.pairwise_map.mpr (h.imp ?_)
  intro e f hless hsame
  exact String.lt_irrefl f.1 (hsame ▸ hless)

end Fields

namespace Json

/-! ## Values -/

theorem Parsed.array {items : List Json} (h : ∀ v ∈ items, v.Parsed) : Parsed (.array items) where
  fits := by
    intro n hn
    cases hn with
    | item hv hn => exact (h _ hv).fits n hn
  ordered := by
    intro fields hfields
    cases hfields with
    | item hv hfields => exact (h _ hv).ordered fields hfields

theorem Parsed.object {fields : Fields} (hordered : fields.Ordered)
    (h : ∀ e ∈ fields, e.2.Parsed) : Parsed (.object fields) where
  fits := by
    intro n hn
    cases hn with
    | field hv hn => exact (h _ hv).fits n hn
  ordered := by
    intro inner hinner
    cases hinner with
    | self => exact hordered
    | field hv hinner => exact (h _ hv).ordered inner hinner

/-- A value that holds no number and no object is none to worry about. -/
theorem Parsed.plain {v : Json} (hnumber : ∀ n, ¬ Within (ofInt n) v)
    (hobject : ∀ fields, ¬ Within (.object fields) v) : v.Parsed where
  fits := fun n hn => absurd hn (hnumber n)
  ordered := fun fields hfields => absurd hfields (hobject fields)

theorem Parsed.null : Parsed .null :=
  .plain (by intro n hn; cases hn) (by intro fields hfields; cases hfields)

theorem Parsed.bool (b : Bool) : Parsed (.bool b) :=
  .plain (by intro n hn; cases hn) (by intro fields hfields; cases hfields)

theorem Parsed.string (s : String) : Parsed (.string s) :=
  .plain (by intro n hn; cases hn) (by intro fields hfields; cases hfields)

theorem Parsed.number {n : Number} (h : ∀ k, n = .integer k → Number.Fits k) :
    Parsed (.number n) where
  fits := by
    intro k hk
    cases hk
    exact h k rfl
  ordered := by
    intro fields hfields
    cases hfields

/-- Each item of an array that is read was read on its own. -/
theorem of_mem_readItems {α : Type} {item : Reader α} {fuel : Nat} {first : Bool}
    {cs left : List Char} {vs : List α} (h : readItems item fuel first cs = .ok (vs, left)) :
    ∀ v ∈ vs, ∃ text behind, item text = .ok (v, behind) := by
  induction fuel generalizing first cs vs with
  | zero => cases h
  | succ fuel ih =>
    unfold readItems at h
    obtain ⟨⟨more, text⟩, -, h⟩ := of_bind_eq_ok h
    cases more with
    | false =>
      cases h
      intro v hv
      cases hv
    | true =>
      obtain ⟨⟨v, behind⟩, hv, h⟩ := of_bind_eq_ok h
      obtain ⟨⟨ws, behind'⟩, hws, h⟩ := of_bind_eq_ok h
      cases h
      intro w hw
      rcases List.mem_cons.mp hw with rfl | hw
      · exact ⟨text, behind, hv⟩
      · exact ih hws w hw

/-- What every field keeps, an object keeps. -/
theorem readFields_keeps {σ : Type} {field : String → σ → Reader σ} {P : σ → Prop}
    (hfield : ∀ name s cs t left, P s → field name s cs = .ok (t, left) → P t) {fuel : Nat}
    {first : Bool} {s t : σ} {cs left : List Char} (hs : P s)
    (h : readFields field fuel first s cs = .ok (t, left)) : P t := by
  induction fuel generalizing first s cs with
  | zero => cases h
  | succ fuel ih =>
    unfold readFields at h
    obtain ⟨⟨name?, text⟩, -, h⟩ := of_bind_eq_ok h
    cases name? with
    | none =>
      cases h
      exact hs
    | some name =>
      obtain ⟨⟨u, behind⟩, hu, h⟩ := of_bind_eq_ok h
      exact ih (hfield name s text u behind hs hu) h

/-- Each field of an object that is read was read on its own. -/
theorem of_mem_readFields {value : Reader Json} {fuel : Nat} {first : Bool} {cs left : List Char}
    {fields : Fields} (h : readFields (readFieldInto value) fuel first [] cs = .ok (fields, left)) :
    ∀ e ∈ fields, ∃ text behind, value text = .ok (e.2, behind) := by
  refine readFields_keeps (P := fun fs => ∀ e ∈ fs, ∃ text behind, value text = .ok (e.2, behind))
    ?_ (List.forall_mem_nil _) h
  intro name fs text gs behind hfs hfield
  obtain ⟨⟨u, text'⟩, -, hfield⟩ := of_bind_eq_ok hfield
  obtain ⟨⟨v, behind'⟩, hvalue, hfield⟩ := of_bind_eq_ok hfield
  cases hfield
  intro e he
  rcases Fields.mem_insert he with rfl | he
  · exact ⟨text', behind, hvalue⟩
  · exact hfs e he

/-- The fields of an object that is read are put in one by one, each in its place. -/
theorem ordered_readFields {value : Reader Json} {fuel : Nat} {first : Bool} {cs left : List Char}
    {fields : Fields} (h : readFields (readFieldInto value) fuel first [] cs = .ok (fields, left)) :
    fields.Ordered := by
  refine readFields_keeps (P := Fields.Ordered) ?_ List.Pairwise.nil h
  intro name fs text gs behind hfs hfield
  obtain ⟨⟨u, text'⟩, -, hfield⟩ := of_bind_eq_ok hfield
  obtain ⟨⟨v, behind'⟩, -, hfield⟩ := of_bind_eq_ok hfield
  cases hfield
  exact hfs.insert name v

theorem parsed_readFields {value : Reader Json}
    (hvalue : ∀ cs v left, value cs = .ok (v, left) → v.Parsed) {fuel : Nat} {first : Bool}
    {cs left : List Char} {fields : Fields}
    (h : readFields (readFieldInto value) fuel first [] cs = .ok (fields, left)) :
    Parsed (.object fields) := by
  refine .object (ordered_readFields h) ?_
  intro e he
  obtain ⟨text, behind, hread⟩ := of_mem_readFields h e he
  exact hvalue text e.2 behind hread

/-- A value that is read by its first character is one that needs no more, or an array or an
    object. -/
theorem parsed_readBy {array object : Reader Json}
    (harray : ∀ cs v left, array cs = .ok (v, left) → v.Parsed)
    (hobject : ∀ cs v left, object cs = .ok (v, left) → v.Parsed) {cs left : List Char} {v : Json}
    (h : readBy array object cs = .ok (v, left)) : v.Parsed := by
  have hbegins := begins_of_readBy h
  generalize skipSpace cs = text at hbegins
  cases hbegins with
  | null => exact .null
  | yes => exact .bool true
  | no => exact .bool false
  | string => exact .string _
  | array h => exact harray _ _ _ h
  | object h => exact hobject _ _ _ h
  | number h =>
    apply Parsed.number
    rintro k rfl
    exact fits_readNumber h

theorem parsed_readValue {levels : Nat} {cs left : List Char} {v : Json}
    (h : readValue levels cs = .ok (v, left)) : v.Parsed := by
  induction levels generalizing cs v left with
  | zero =>
    have hdeep : ∀ cs v left, refuseDeep cs = .ok (v, left) → Parsed v := by
      intro cs v left hv
      cases hv
    exact parsed_readBy hdeep hdeep h
  | succ levels ih =>
    refine parsed_readBy ?_ ?_ h
    · intro text w behind hw
      obtain ⟨⟨items, behind'⟩, hitems, hw⟩ := of_bind_eq_ok hw
      cases hw
      apply Parsed.array
      intro u hu
      obtain ⟨_, _, hread⟩ := of_mem_readItems hitems u hu
      exact ih hread
    · intro text w behind hw
      obtain ⟨⟨fields, behind'⟩, hfields, hw⟩ := of_bind_eq_ok hw
      cases hw
      exact parsed_readFields (fun _ _ _ hread => ih hread) hfields

/-- The value of a text is read from its front, and only blanks are behind it. -/
theorem of_readWhole_eq_ok {α : Type} {part : Reader α} {text : List Char} {a : α}
    (h : readWhole part text = .ok a) :
    ∃ left, part text = .ok (a, left) ∧ skipSpace left = [] := by
  unfold readWhole at h
  split at h
  · cases h
  · next left hread =>
    split at h
    · next hblank =>
      cases h
      exact ⟨left, hread, hblank⟩
    · cases h

/-- The value of a text has its fields in order and whole numbers that fit. -/
theorem parsed_ofChars {cs : List Char} {v : Json} (h : ofChars cs = .ok v) : v.Parsed := by
  obtain ⟨left, hread, -⟩ := of_readWhole_eq_ok h
  exact parsed_readValue hread

end Json
end Harvest
