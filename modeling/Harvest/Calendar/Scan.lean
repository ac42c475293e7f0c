/-
  Harvest.Calendar.Scan

  The parts that texts of dates are read from: numbers of a bounded width, fixed
  characters, fractions of a second and offsets from UTC. Lengths are counted in octets of
  UTF-8, as a text that is too short is told from one that is wrong by its octets.
-/
import Harvest.Number.Range
import Harvest.Text.Utf8
import Harvest.Text.Blank
import Harvest.Calendar.Instant

namespace Harvest.Calendar

/-- Why a text is no date. -/
inductive DateFault where
  | invalid
  | tooShort
  | tooLong
  | outOfRange
  | impossible
  deriving DecidableEq, Repr

/-- The words for a fault. -/
def DateFault.message : DateFault → String
  | .invalid => "input contains invalid characters"
  | .tooShort => "premature end of input"
  | .tooLong => "trailing input"
  | .outOfRange => "input is out of range"
  | .impossible => "no possible date and time matching input"

/-- A reader of a part at the front of a text. -/
abbrev Scan (α : Type) := List Char → Except DateFault (α × List Char)

/-- The value of a decimal digit. -/
def digit? (c : Char) : Option Nat := if c.isDigit then some (c.toNat - 48) else none

/-- Reads on in a number of which `count` digits with value `value` are read, at most
    `width` more digits. -/
def scanDigits (least count value : Nat) : Nat → Scan Nat
  | 0, cs => .ok (value, cs)
  | _ + 1, [] => .ok (value, [])
  | width + 1, c :: cs =>
    match digit? c with
    | none => if count < least then .error .invalid else .ok (value, c :: cs)
    | some d =>
      let next := 10 * value + d
      -- Only a year with a sign can have that many digits.
      if Number.greatestSigned64 < next then .error .outOfRange
      else scanDigits least (count + 1) next width cs

/-- Reads a number of at least `least` and at most `width` digits. -/
def scanNumber (least width : Nat) : Scan Nat := fun cs =>
  if Utf8.size cs < least then .error .tooShort else scanDigits least 0 0 width cs

/-- Reads one fixed character. -/
def scanChar (expected : Char) : Scan Unit
  | [] => .error .tooShort
  | c :: cs => if c = expected then .ok ((), cs) else .error .invalid

/-- Reads the character between a day and a time. -/
def scanSeparator : Scan Unit
  | [] => .error .tooShort
  | c :: cs => if c = 'T' ∨ c = 't' ∨ c = ' ' then .ok ((), cs) else .error .invalid

/-- Reads the digits of a fraction of a second: nine count, those after them do not. -/
def scanFraction : Scan Nat := fun cs => do
  let (value, rest) ← scanNumber 1 9 cs
  let width := cs.length - rest.length
  return (value * Number.power 10 (9 - width), rest.dropWhile Char.isDigit)

/-- The two characters at the front of a text, where it has two octets. -/
def scanPair (cs : List Char) : Except DateFault (Char × Char × List Char) :=
  match cs with
  | a :: b :: rest => .ok (a, b, rest)
  | cs => if Utf8.size cs < 2 then .error .tooShort else .error .invalid

/-- Reads the hours of an offset. -/
def scanOffsetHours : Scan Nat := fun cs => do
  let (a, b, rest) ← scanPair cs
  match digit? a, digit? b with
  | some x, some y => return (10 * x + y, rest)
  | _, _ => throw .invalid

/-- Reads the minutes of an offset. -/
def scanOffsetMinutes : Scan Nat := fun cs => do
  let (a, b, rest) ← scanPair cs
  match digit? a, digit? b with
  | some x, some y => if x < 6 then return (10 * x + y, rest) else throw .outOfRange
  | _, _ => throw .invalid

/-- Reads the sign of an offset: whether it is negative. -/
def scanSign : Scan Bool
  | [] => .error .tooShort
  | '+' :: cs => .ok (false, cs)
  | '-' :: cs => .ok (true, cs)
  | '−' :: cs => .ok (true, cs)
  | _ => .error .invalid

/-- Reads an offset from UTC in seconds, with `separator` between hours and minutes. -/
def scanOffset (separator : Scan Unit) : Scan Int
  | 'Z' :: cs => .ok (0, cs)
  | 'z' :: cs => .ok (0, cs)
  | cs => do
    let (negative, cs) ← scanSign cs
    let (hours, cs) ← scanOffsetHours cs
    let ((), cs) ← separator cs
    let (minutes, cs) ← scanOffsetMinutes cs
    let seconds : Int := (hours * 3600 + minutes * 60 : Nat)
    return (if negative then -seconds else seconds, cs)

/-- The instant of a time of a day at an offset from UTC. An offset of a whole day or
    more is out of range, and a day of the calendar may fall out of it at its ends. -/
def Instant.ofLocal (d : Date) (secondOfDay nanos : Nat) (offset : Int) :
    Except DateFault Instant :=
  if offset ≤ -86400 ∨ 86400 ≤ offset then .error .outOfRange
  else
    -- A time east of UTC is reached there earlier.
    let seconds := d.toDays * 86400 + secondOfDay - offset
    if Instant.inRange seconds then .ok ⟨seconds, nanos⟩ else .error .impossible

end Harvest.Calendar
