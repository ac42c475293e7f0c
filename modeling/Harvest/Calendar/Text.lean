/-
  Harvest.Calendar.Text

  The text of an instant: `2024-01-01T00:00:00Z`, with a fraction of a second where one is
  due. A year outside 0 to 9999 carries its sign.
-/
import Harvest.Calendar.Instant

namespace Harvest.Calendar

/-- A number in decimal, with zeros in front up to a width. -/
def padded (width n : Nat) : List Char :=
  let ds := Nat.toDigits 10 n
  List.replicate (width - ds.length) '0' ++ ds

/-- Which fraction of a second a text shows. -/
inductive Precision where
  /-- As many groups of three digits as the fraction needs, none for a whole second. -/
  | shortest
  /-- Three digits always. -/
  | millis
  deriving DecidableEq, Repr

/-- The text of a year. -/
def yearText (year : Int) : List Char :=
  if 0 ≤ year ∧ year ≤ 9999 then padded 4 year.toNat
  else (if year < 0 then '-' else '+') :: padded 4 year.natAbs

/-- The text of a fraction of a second, in nanoseconds. -/
def fractionText (precision : Precision) (nanos : Nat) : List Char :=
  match precision with
  | .millis => '.' :: padded 3 (nanos / 1000000)
  | .shortest =>
    if nanos = 0 then []
    else if nanos % 1000000 = 0 then '.' :: padded 3 (nanos / 1000000)
    else if nanos % 1000 = 0 then '.' :: padded 6 (nanos / 1000)
    else '.' :: padded 9 nanos

/-- The text of an instant. A leap second is second 60, or one past the second it
    follows. -/
def Instant.chars (precision : Precision) (t : Instant) : List Char :=
  let d := t.date
  let s := t.secondOfDay
  let leap := 1000000000 ≤ t.nanos
  let second := if leap then s % 60 + 1 else s % 60
  let nanos := if leap then t.nanos - 1000000000 else t.nanos
  yearText d.year ++ '-' :: padded 2 d.month ++ '-' :: padded 2 d.day
    ++ 'T' :: padded 2 (s / 3600) ++ ':' :: padded 2 (s / 60 % 60) ++ ':' :: padded 2 second
    ++ fractionText precision nanos ++ ['Z']

/-- The text of an instant with the fraction it needs. -/
def Instant.text (t : Instant) : String := String.ofList (t.chars .shortest)

/-- The text of an instant with three digits of its fraction. -/
def Instant.millisText (t : Instant) : String := String.ofList (t.chars .millis)

example : Instant.text ⟨1704067200, 250000000⟩ = "2024-01-01T00:00:00.250Z" := by
  decide +kernel
example : Instant.text ⟨253402300800, 0⟩ = "+10000-01-01T00:00:00Z" := by decide +kernel

end Harvest.Calendar
