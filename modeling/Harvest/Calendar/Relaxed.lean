/-
  Harvest.Calendar.Relaxed

  Dates as documents may hold them: the strict form, and beside it parts of fewer digits,
  years with a sign and any number of digits, blanks before and between the parts, `UTC`
  in any case, and offsets with or without a colon. A part out of its range is refused as
  soon as it is read; a day that its month lacks, only when all is read.
-/
import Harvest.Calendar.Scan

namespace Harvest.Calendar

/-- Reads a number after any blanks, which must lie in a range. -/
def scanPart (least greatest : Nat) : Scan Nat := fun cs => do
  let (n, cs) ← scanNumber 1 2 (Text.trimStart cs)
  if least ≤ n && n ≤ greatest then return (n, cs) else throw .outOfRange

/-- Reads a year after any blanks. With a sign it may have any number of digits. -/
def scanYear : Scan Int := fun cs => do
  let (year, cs) ← match Text.trimStart cs with
    | '-' :: rest => do
      let (n, rest) ← scanNumber 1 rest.length rest
      pure (-(n : Int), rest)
    | '+' :: rest => do
      let (n, rest) ← scanNumber 1 rest.length rest
      pure ((n : Int), rest)
    | cs => do
      let (n, rest) ← scanNumber 1 4 cs
      pure ((n : Int), rest)
  if Number.leastSigned32 ≤ year && year ≤ Number.greatestSigned32 then return (year, cs)
  else throw .outOfRange

/-- Reads any blanks and one fixed character. -/
def scanMark (expected : Char) : Scan Unit := fun cs => scanChar expected (Text.trimStart cs)

/-- Reads the day, whose month may lack it. -/
def scanRelaxedDate : Scan Date := fun cs => do
  let (year, cs) ← scanYear cs
  let ((), cs) ← scanMark '-' cs
  let (month, cs) ← scanPart 1 12 cs
  let ((), cs) ← scanMark '-' cs
  let (day, cs) ← scanPart 1 31 cs
  return (⟨year, month, day⟩, cs)

/-- Reads the time of day: its second, and its nanoseconds with those of a leap second. -/
def scanRelaxedTime : Scan (Nat × Nat) := fun cs => do
  let (hour, cs) ← scanPart 0 23 cs
  let ((), cs) ← scanMark ':' cs
  let (minute, cs) ← scanPart 0 59 cs
  let ((), cs) ← scanMark ':' cs
  let (second, cs) ← scanPart 0 60 cs
  -- A point needs at least one digit behind it.
  let (nanos, cs) ← match cs with
    | '.' :: rest => scanFraction rest
    | cs => pure (0, cs)
  -- A leap second lengthens the second before it.
  if second = 60 then return ((hour * 3600 + minute * 60 + 59, nanos + 1000000000), cs)
  else return ((hour * 3600 + minute * 60 + second, nanos), cs)

/-- Passes over the colons and blanks between the hours and minutes of an offset. -/
def scanLooseColon : Scan Unit := fun cs =>
  .ok ((), cs.dropWhile fun c => c == ':' || Text.isBlank c)

/-- Reads `UTC` in any case, or an offset. -/
def scanZone : Scan Int
  | a :: b :: c :: rest =>
    if a.toUpper = 'U' ∧ b.toUpper = 'T' ∧ c.toUpper = 'C' then .ok (0, rest)
    else scanOffset scanLooseColon (a :: b :: c :: rest)
  | cs => scanOffset scanLooseColon cs

/-- The instant that a text in the relaxed form denotes. -/
def Instant.ofRelaxed (cs : List Char) : Except DateFault Instant := do
  let (date, cs) ← scanRelaxedDate cs
  let ((), cs) ← scanSeparator cs
  let ((second, nanos), cs) ← scanRelaxedTime cs
  let (offset, cs) ← scanZone (Text.trimStart cs)
  -- That a day is in no calendar is told only once the whole text is read.
  if !(Text.trimStart cs).isEmpty then throw .tooLong
  if !date.isValid || date.year < leastYear || greatestYear < date.year then
    throw .outOfRange
  Instant.ofLocal date second nanos offset

end Harvest.Calendar
