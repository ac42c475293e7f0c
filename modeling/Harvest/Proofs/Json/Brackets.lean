/-
  Harvest.Proofs.Json.Brackets

  Brackets and strings of a text. A scanner counts brackets, and passes over strings from quote to
  quote (`Scan.run`). Numbers and words have no brackets, so that reading one leaves the scanner as
  it was (`readNumber_keeps`, `readWord_keeps`), and a string is read from its opening quote to the
  one that ends it (`readString_run`).
-/
import Harvest.Json.Record
import Harvest.Proofs.Json.OneLine

namespace Harvest.Json

/-! ## The scanner -/

/-- Where a scanner of brackets is: so many levels below the outermost bracket, outside of a
    string, inside of one or behind its backslash; or the outermost bracket is closed. It is stuck
    behind what can be no part of a text. -/
inductive Scan where
  | outside (depth : Nat)
  | inside (depth : Nat)
  | escaped (depth : Nat)
  | closed
  | stuck
  deriving DecidableEq

/-- Whether a character counts for nothing outside of strings. -/
def isIdle (c : Char) : Bool := Number.isBare c || isSpace c || c == ',' || c == ':'

namespace Scan

/-- A bracket is closed. -/
def pop : Nat → Scan
  | 0 => .closed
  | depth + 1 => .outside depth

def step : Scan → Char → Scan
  | .outside depth, c =>
    if c = '"' then .inside depth
    else if c = '[' ∨ c = '{' then .outside (depth + 1)
    else if c = ']' ∨ c = '}' then pop depth
    else if isIdle c then .outside depth
    else .stuck
  | .inside depth, c =>
    if c = '"' then .outside depth
    else if c = '\\' then .escaped depth
    else .inside depth
  | .escaped depth, _ => .inside depth
  | .closed, c => if isSpace c then .closed else .stuck
  | .stuck, _ => .stuck

/-- Passes over a text. -/
def run (s : Scan) (cs : List Char) : Scan := cs.foldl step s

variable {depth : Nat} {c : Char} {cs : List Char}

theorem run_append (s : Scan) (cs ds : List Char) : run s (cs ++ ds) = run (run s cs) ds :=
  List.foldl_append

@[simp] theorem run_stuck (cs : List Char) : run .stuck cs = .stuck := by
  induction cs with
  | nil => rfl
  | cons c cs ih => exact ih

theorem run_idle (h : isIdle c = true) (cs : List Char) :
    run (.outside depth) (c :: cs) = run (.outside depth) cs := by
  have hquote : c ≠ '"' := by rintro rfl; cases h
  have hopen : ¬ (c = '[' ∨ c = '{') := by rintro (rfl | rfl) <;> cases h
  have hclose : ¬ (c = ']' ∨ c = '}') := by rintro (rfl | rfl) <;> cases h
  have hstep : step (.outside depth) c = .outside depth := by
    unfold step
    dsimp only
    rw [if_neg hquote, if_neg hopen, if_neg hclose, if_pos h]
  exact congrArg (run · cs) hstep

theorem isIdle_of_isBare (h : Number.isBare c = true) : isIdle c = true := by
  unfold isIdle
  rw [h]
  rfl

theorem isIdle_of_isDigit (h : c.isDigit = true) : isIdle c = true :=
  isIdle_of_isBare (Number.isBare_of_isDigit h)

theorem isIdle_of_isSpace (h : isSpace c = true) : isIdle c = true := by
  unfold isIdle
  rw [h, Bool.or_true]
  rfl

/-- Numbers and words have no brackets. -/
theorem run_bare (h : cs.all Number.isBare = true) (rest : List Char) :
    run (.outside depth) (cs ++ rest) = run (.outside depth) rest := by
  induction cs with
  | nil => rfl
  | cons c cs ih =>
    rw [List.all_cons, Bool.and_eq_true] at h
    rw [List.cons_append, run_idle (isIdle_of_isBare h.1), ih h.2]

theorem run_dropWhile {p : Char → Bool} (hp : ∀ c, p c = true → isIdle c = true)
    (cs : List Char) : run (.outside depth) (cs.dropWhile p) = run (.outside depth) cs := by
  induction cs with
  | nil => rfl
  | cons c cs ih =>
    rw [List.dropWhile_cons]
    split
    · next hc => rw [ih, run_idle (hp c hc)]
    · rfl

@[simp] theorem run_skipSpace (cs : List Char) :
    run (.outside depth) (skipSpace cs) = run (.outside depth) cs :=
  run_dropWhile (fun _ => isIdle_of_isSpace) cs

@[simp] theorem run_dropDigits (cs : List Char) :
    run (.outside depth) (cs.dropWhile Char.isDigit) = run (.outside depth) cs :=
  run_dropWhile (fun _ => isIdle_of_isDigit) cs

theorem run_of_skipSpace {d : Char} {ds : List Char} (h : skipSpace cs = d :: ds) :
    run (.outside depth) cs = run (.outside depth) (d :: ds) := by
  rw [← run_skipSpace, h]

/-- Nothing but blanks is behind the outermost bracket. -/
theorem run_closed (h : skipSpace cs = []) : run .closed cs = .closed := by
  induction cs with
  | nil => rfl
  | cons c cs ih =>
    unfold skipSpace at h ih
    rw [List.dropWhile_cons] at h
    split at h
    · next hc =>
      have hstep : step .closed c = .closed := if_pos hc
      exact (congrArg (run · cs) hstep).trans (ih h)
    · cases h

/-- A character of a string that neither ends it nor is a backslash. -/
theorem run_plain (hquote : c ≠ '"') (hslash : c ≠ '\\') (cs : List Char) :
    run (.inside depth) (c :: cs) = run (.inside depth) cs := by
  have hstep : step (.inside depth) c = .inside depth := by
    unfold step
    dsimp only
    rw [if_neg hquote, if_neg hslash]
  exact congrArg (run · cs) hstep

end Scan

open Scan

/-- A reader that leaves the scanner as it met it. -/
def Reader.Keeps {α : Type} (read : Reader α) : Prop :=
  ∀ {depth : Nat} {cs left : List Char} {a : α}, read cs = .ok (a, left) →
    run (.outside depth) cs = run (.outside depth) left

/-! ## Numbers -/

section

variable {depth : Nat}

@[simp] theorem run_takeDigits (significand taken : Nat) (cs : List Char) :
    run (.outside depth) (takeDigits significand taken cs).2.2 = run (.outside depth) cs := by
  induction cs generalizing significand taken with
  | nil => rfl
  | cons c cs ih =>
    rw [takeDigits]
    cases hc : decimalDigit? c with
    | none => rfl
    | some d =>
      dsimp only
      split
      · rfl
      · rw [ih, run_idle (isIdle_of_isDigit (isDigit_of_decimalDigit? hc))]

theorem run_takeExponent (n : Nat) (cs : List Char) :
    run (.outside depth) (takeExponent n cs).2 = run (.outside depth) cs := by
  induction cs generalizing n with
  | nil => rfl
  | cons c cs ih =>
    rw [takeExponent]
    cases hc : decimalDigit? c with
    | none => rfl
    | some d =>
      rw [run_idle (isIdle_of_isDigit (isDigit_of_decimalDigit? hc))]
      dsimp only
      split
      · rfl
      · exact ih _

theorem run_takeSign (cs : List Char) :
    run (.outside depth) (takeSign cs).2 = run (.outside depth) cs := by
  unfold takeSign
  split
  · exact (run_idle rfl _).symm
  · exact (run_idle rfl _).symm
  · rfl

theorem endReal_keeps (negative : Bool) (significand : Nat) (exponent : Int) :
    (endReal negative significand exponent).Keeps := by
  intro depth cs left n h
  unfold endReal at h
  split at h
  · cases h
    rfl
  · cases h

theorem readExponent_keeps (negative : Bool) (significand : Nat) (exponent : Int) :
    (readExponent negative significand exponent).Keeps := by
  intro depth cs left n h
  have hsign : run (.outside depth) (takeSign cs).2 = run (.outside depth) cs := run_takeSign cs
  unfold readExponent at h
  dsimp only at h
  generalize takeSign cs = signed at h hsign
  obtain ⟨down, digits⟩ := signed
  cases digits with
  | nil => cases h
  | cons c rest =>
    rw [← hsign]
    dsimp only at h ⊢
    cases hc : decimalDigit? c with
    | none =>
      rw [hc] at h
      cases h
    | some d =>
      have hdigits : run (.outside depth) (takeExponent d rest).2 = run (.outside depth) rest :=
        run_takeExponent d rest
      rw [hc] at h
      dsimp only at h
      rw [run_idle (isIdle_of_isDigit (isDigit_of_decimalDigit? hc)), ← hdigits]
      generalize takeExponent d rest = taken at h
      obtain ⟨value, behind⟩ := taken
      cases value with
      | value k => exact endReal_keeps _ _ _ h
      -- The digits that are left are passed over.
      | tooLarge =>
        dsimp only at h
        split at h
        · cases h
        · cases h
          exact (run_dropDigits behind).symm

theorem readFractionEnd_keeps (negative : Bool) (significand : Nat) (exponent : Int) :
    (readFractionEnd negative significand exponent).Keeps := by
  intro depth cs left n h
  unfold readFractionEnd at h
  split at h
  · rw [run_idle rfl]
    exact readExponent_keeps _ _ _ h
  · rw [run_idle rfl]
    exact readExponent_keeps _ _ _ h
  · exact endReal_keeps _ _ _ h

theorem readFraction_keeps (negative : Bool) (significand : Nat) (exponent : Int) :
    (readFraction negative significand exponent).Keeps := by
  intro depth cs left n h
  cases hdigit : startsWithDigit cs with
  | false =>
    unfold readFraction at h
    rw [hdigit] at h
    cases cs <;> cases h
  | true =>
    -- Digits that do not fit are dropped behind those that are taken.
    rw [readFraction_eq hdigit] at h
    rw [← run_takeDigits significand 0 cs, ← run_dropDigits]
    exact readFractionEnd_keeps _ _ _ h

theorem readTail_keeps (negative : Bool) (significand dropped : Nat) :
    (readTail negative significand dropped).Keeps := by
  intro depth cs left n h
  unfold readTail at h
  split at h
  · rw [run_idle rfl]
    exact readFraction_keeps _ _ _ h
  · rw [run_idle rfl]
    exact readExponent_keeps _ _ _ h
  · rw [run_idle rfl]
    exact readExponent_keeps _ _ _ h
  · split at h
    · cases h
      rfl
    · exact endReal_keeps _ _ _ h

theorem readMagnitude_keeps (negative : Bool) : (readMagnitude negative).Keeps := by
  intro depth cs left n h
  cases cs with
  | nil => cases h
  | cons c cs =>
    cases hc : decimalDigit? c with
    | none =>
      rw [readMagnitude_of_none hc] at h
      cases h
    | some d =>
      rw [run_idle (isIdle_of_isDigit (isDigit_of_decimalDigit? hc))]
      cases d with
      | zero =>
        rw [readMagnitude_of_zero hc] at h
        split at h
        · cases h
        · exact readTail_keeps _ _ _ h
      | succ d =>
        rw [readMagnitude_of_digit hc] at h
        rw [← run_takeDigits (d + 1) 1 cs, ← run_dropDigits]
        exact readTail_keeps _ _ _ h

theorem readNumber_keeps : Reader.Keeps readNumber := by
  intro depth cs left n h
  unfold readNumber at h
  split at h
  · rw [run_idle rfl]
    exact readMagnitude_keeps true h
  · exact readMagnitude_keeps false h

end

/-! ## Strings -/

section

variable {depth : Nat} {cs left : List Char}

theorem readWord_keeps {word : List Char} (h : word.all Number.isBare = true) :
    (readWord word).Keeps := by
  intro depth cs left u hread
  induction word generalizing cs with
  | nil =>
    cases hread
    rfl
  | cons w ws ih =>
    rw [List.all_cons, Bool.and_eq_true] at h
    cases cs with
    | nil => cases hread
    | cons c cs =>
      unfold readWord at hread
      split at hread
      · next hc =>
        subst hc
        rw [run_idle (isIdle_of_isBare h.1)]
        exact ih h.2 hread
      · cases hread

theorem plain_of_hexDigit? {c : Char} {n : Nat} (h : hexDigit? c = some n) :
    c ≠ '"' ∧ c ≠ '\\' := by
  constructor
  · rintro rfl
    cases h
  · rintro rfl
    cases h

theorem readHex_run {n : Nat} (h : readHex cs = .ok (n, left)) :
    run (.inside depth) cs = run (.inside depth) left := by
  unfold readHex at h
  split at h
  · cases h
  · split at h
    · next a b c d rest hsize =>
      cases hvalue : hexValue? a b c d with
      | none =>
        rw [hvalue] at h
        cases h
      | some m =>
        rw [hvalue] at h
        cases h
        -- All four are digits, and no digit is a quote or a backslash.
        unfold hexValue? at hvalue
        split at hvalue
        · next ha hb hc hd =>
          rw [run_plain (plain_of_hexDigit? ha).1 (plain_of_hexDigit? ha).2,
            run_plain (plain_of_hexDigit? hb).1 (plain_of_hexDigit? hb).2,
            run_plain (plain_of_hexDigit? hc).1 (plain_of_hexDigit? hc).2,
            run_plain (plain_of_hexDigit? hd).1 (plain_of_hexDigit? hd).2]
        · cases hvalue
    · cases h

theorem readEscapeMark_eq_ok {mark : Char} {u : Unit} (h : readEscapeMark mark cs = .ok (u, left)) :
    cs = mark :: left := by
  cases cs with
  | nil => cases h
  | cons c cs =>
    rw [readEscapeMark] at h
    split at h
    · next hc =>
      cases h
      rw [hc]
    · cases h

theorem readUnicode_run {c : Char} (h : readUnicode cs = .ok (c, left)) :
    run (.inside depth) cs = run (.inside depth) left := by
  unfold readUnicode at h
  obtain ⟨⟨n, behind⟩, hn, h⟩ := of_bind_eq_ok h
  rw [readHex_run hn]
  dsimp only at h
  split at h
  · cases h
  · split at h
    -- The second half is written as an escape of its own.
    · obtain ⟨⟨u, slash⟩, hslash, h⟩ := of_bind_eq_ok h
      obtain ⟨⟨v, mark⟩, hmark, h⟩ := of_bind_eq_ok h
      obtain ⟨⟨m, half⟩, hhalf, h⟩ := of_bind_eq_ok h
      dsimp only at hmark hhalf h
      have hescape : run (.inside depth) behind = run (.inside depth) mark := by
        rw [readEscapeMark_eq_ok hslash, readEscapeMark_eq_ok hmark]
        rfl
      rw [hescape, readHex_run hhalf]
      split at h
      · have hleft : half = left := congrArg Prod.snd (Except.ok.inj h)
        rw [hleft]
      · cases h
    · have hleft : behind = left := congrArg Prod.snd (Except.ok.inj h)
      rw [hleft]

theorem readEscape_run {c : Char} (h : readEscape cs = .ok (c, left)) :
    run (.escaped depth) cs = run (.inside depth) left := by
  cases cs with
  | nil => cases h
  | cons d cs =>
    have hstep : run (.escaped depth) (d :: cs) = run (.inside depth) cs := rfl
    rw [hstep]
    rw [readEscape] at h
    split at h
    · cases h
      rfl
    · split at h
      · exact readUnicode_run h
      · cases h

/-- A string is read up to the quote that ends it. -/
theorem readString_run {s : String} (h : readString cs = .ok (s, left)) :
    run (.inside depth) cs = run (.outside depth) left := by
  -- What is read of the string, and how much of it may be, make no difference.
  unfold readString at h
  generalize cs.length + 1 = fuel at h
  generalize ([] : List Char) = read at h
  induction fuel generalizing read cs with
  | zero => cases h
  | succ fuel ih =>
    cases cs with
    | nil => cases h
    | cons c cs =>
      unfold readStringFrom at h
      split at h
      · next hquote =>
        cases h
        rw [hquote]
        rfl
      · next hquote =>
        split at h
        · next hslash =>
          obtain ⟨⟨e, behind⟩, he, h⟩ := of_bind_eq_ok h
          rw [← ih _ h, ← readEscape_run he, hslash]
          rfl
        · next hslash =>
          split at h
          · cases h
          · rw [run_plain hquote hslash]
            exact ih _ h

theorem skipEscape_run {u : Unit} (h : skipEscape cs = .ok (u, left)) :
    run (.escaped depth) cs = run (.inside depth) left := by
  cases cs with
  | nil => cases h
  | cons d cs =>
    have hstep : run (.escaped depth) (d :: cs) = run (.inside depth) cs := rfl
    rw [hstep]
    rw [skipEscape] at h
    split at h
    · cases h
      rfl
    · split at h
      · obtain ⟨⟨n, behind⟩, hn, h⟩ := of_bind_eq_ok h
        cases h
        exact readHex_run hn
      · cases h

theorem skipString_run {u : Unit} (h : skipString cs = .ok (u, left)) :
    run (.inside depth) cs = run (.outside depth) left := by
  unfold skipString at h
  generalize cs.length + 1 = fuel at h
  induction fuel generalizing cs with
  | zero => cases h
  | succ fuel ih =>
    cases cs with
    | nil => cases h
    | cons c cs =>
      unfold skipStringFrom at h
      split at h
      · next hquote =>
        cases h
        rw [hquote]
        rfl
      · next hquote =>
        split at h
        · next hslash =>
          obtain ⟨⟨e, behind⟩, he, h⟩ := of_bind_eq_ok h
          rw [← ih h, ← skipEscape_run he, hslash]
          rfl
        · next hslash =>
          split at h
          · cases h
          · rw [run_plain hquote hslash]
            exact ih h

end

end Harvest.Json
