/-
  Harvest.Calendar.Strict

  Dates of the internet profile: `2024-01-01T00:00:00Z` and its forms with a fraction, with
  an offset, in lower case or with a blank between day and time. Every part has its full
  width. The day is checked as soon as it is read, the time after its fraction.
-/
import Harvest.Calendar.Scan

namespace Harvest.Calendar

/-- The number of octets of a date without fraction and offset. -/
def strictWidth : Nat := 19

/-- Reads exactly `n` digits, none of which may be missing. -/
def scanExactly : Nat → Nat → Scan Nat
  | 0, value, cs => .ok (value, cs)
  | _ + 1, _, [] => .error .invalid
  | n + 1, value, c :: cs =>
    match digit? c with
    | none => .error .invalid
    | some d => scanExactly n (10 * value + d) cs

/-- Reads the day. -/
def scanStrictDate : Scan Date := fun cs => do
  let (year, cs) ← scanExactly 4 0 cs
  let ((), cs) ← scanChar '-' cs
  let (month, cs) ← scanExactly 2 0 cs
  let ((), cs) ← scanChar '-' cs
  let (day, cs) ← scanExactly 2 0 cs
  let date : Date := ⟨year, month, day⟩
  if date.isValid then return (date, cs) else throw .outOfRange

/-- Reads the time of day: its second, and its nanoseconds with those of a leap second. -/
def scanStrictTime : Scan (Nat × Nat) := fun cs => do
  let (hour, cs) ← scanExactly 2 0 cs
  let ((), cs) ← scanChar ':' cs
  let (minute, cs) ← scanExactly 2 0 cs
  let ((), cs) ← scanChar ':' cs
  let (second, cs) ← scanExactly 2 0 cs
  let (nanos, cs) ← match cs with
    | '.' :: rest => scanFraction rest
    | cs => pure (0, cs)
  -- The bounds are checked behind the fraction, whose faults come first.
  if 24 ≤ hour ∨ 60 ≤ minute ∨ 61 ≤ second then throw .outOfRange
  -- A leap second lengthens the second before it.
  else if second = 60 then return ((hour * 3600 + minute * 60 + 59, nanos + 1000000000), cs)
  else return ((hour * 3600 + minute * 60 + second, nanos), cs)

/-- The instant that a text in the strict form denotes. -/
def Instant.ofStrict (cs : List Char) : Except DateFault Instant := do
  if Utf8.size cs < strictWidth then throw .tooShort
  let (date, cs) ← scanStrictDate cs
  let ((), cs) ← scanSeparator cs
  let ((second, nanos), cs) ← scanStrictTime cs
  let (offset, cs) ← scanOffset (scanChar ':') cs
  if cs.isEmpty then Instant.ofLocal date second nanos offset else throw .tooLong

end Harvest.Calendar
