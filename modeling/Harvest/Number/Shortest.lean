/-
  Harvest.Number.Shortest

  Decimal texts of floating-point numbers. The digits are the fewest that read back to the
  number, and of those the nearest to it; a style says which exponents are written out in
  full.
-/
import Harvest.Number.Binary

namespace Harvest.Number

/-- The decimal number `digits * 10 ^ exponent`. -/
structure Decimal where
  digits : Nat
  exponent : Int
  deriving DecidableEq, Repr

/-- A fraction `numerator / denominator` of natural numbers. -/
structure Ratio where
  numerator : Nat
  denominator : Nat

/-- `mantissa * base ^ exponent` as a fraction. -/
def Ratio.scaled (mantissa base : Nat) (exponent : Int) : Ratio :=
  if 0 ≤ exponent then ⟨mantissa * power base exponent.toNat, 1⟩
  else ⟨mantissa, power base (-exponent).toNat⟩

/-- Whether one fraction is at most another. -/
def Ratio.le (a b : Ratio) : Bool :=
  a.numerator * b.denominator ≤ b.numerator * a.denominator

/-- Whether one fraction is below another. -/
def Ratio.lt (a b : Ratio) : Bool :=
  a.numerator * b.denominator < b.numerator * a.denominator

/-- The numbers that read back as `mantissa * 2 ^ exponent`: those between its halfway
    points to its neighbours, the points included when the mantissa is even. -/
structure Interval where
  least : Ratio
  value : Ratio
  greatest : Ratio
  closed : Bool

/-- The numbers that read back as a positive value. -/
def Interval.around (mantissa : Nat) (exponent : Int) (lowest : Bool) : Interval :=
  { least := .scaled (if lowest then 4 * mantissa - 1 else 4 * mantissa - 2) 2 (exponent - 2)
    value := .scaled (4 * mantissa) 2 (exponent - 2)
    greatest := .scaled (4 * mantissa + 2) 2 (exponent - 2)
    closed := mantissa % 2 == 0 }

/-- Whether a decimal number reads back as the value. -/
def Interval.contains (i : Interval) (d : Decimal) : Bool :=
  let r := Ratio.scaled d.digits 10 d.exponent
  if i.closed then i.least.le r && r.le i.greatest else i.least.lt r && r.lt i.greatest

/-- The power of ten at or just below the value. -/
def Interval.magnitude (i : Interval) (mantissa : Nat) (exponent : Int) : Int :=
  -- The logarithm of two is 0.30103 closely enough to be off by one at most.
  let guess := (exponent + (Nat.log2 mantissa : Int)) * 30103 / 100000
  let below (p : Int) := (Ratio.scaled 1 10 p).le i.value
  if below (guess + 1) then guess + 1 else if below guess then guess else guess - 1

/-- The decimal numbers of a grid on either side of the value, the nearer first. On a tie
    the one with an even last digit comes first. -/
def Interval.neighbours (i : Interval) (step : Int) : List Decimal :=
  let unit := Ratio.scaled 1 10 step
  let n := i.value.numerator * unit.denominator
  let d := i.value.denominator * unit.numerator
  let floor := n / d
  let below : Decimal := ⟨floor, step⟩
  let above : Decimal := ⟨floor + 1, step⟩
  let rest := 2 * (n % d)
  if rest < d then [below, above]
  else if d < rest then [above, below]
  else if floor % 2 = 0 then [below, above] else [above, below]

/-- Drops the zeros that a decimal number ends with. -/
def Decimal.trimZeros (fuel : Nat) (d : Decimal) : Decimal :=
  match fuel with
  | 0 => d
  | fuel + 1 =>
    if d.digits ≠ 0 ∧ d.digits % 10 = 0 then
      trimZeros fuel ⟨d.digits / 10, d.exponent + 1⟩
    else d

/-- The decimal number with the fewest digits that reads back as
    `mantissa * 2 ^ exponent`, and of those the nearest. Seventeen digits always do. -/
def shortest (mantissa : Nat) (exponent : Int) (lowest : Bool) : Decimal :=
  let i := Interval.around mantissa exponent lowest
  let p := i.magnitude mantissa exponent
  let hit := (List.range 17).findSome? fun (k : Nat) =>
    (i.neighbours (p - (k : Int))).find? i.contains
  (hit.getD ⟨0, 0⟩).trimZeros 18

/-! ## Layout -/

/-- Which exponents of the first digit are written out in full, and whether the exponent
    of the others is written with a plus sign when it is not negative. -/
structure Style where
  least : Int
  greatest : Int
  plus : Bool
  deriving DecidableEq, Repr

/-- The text of a positive decimal number. Written out in full it has a fraction always. -/
def Decimal.text (style : Style) (d : Decimal) : List Char :=
  let ds := Nat.toDigits 10 d.digits
  let first : Int := d.exponent + ds.length - 1
  if style.least ≤ first && first ≤ style.greatest then
    if first < 0 then
      ['0', '.'] ++ List.replicate (-first - 1).toNat '0' ++ ds
    -- No digit is behind the point.
    else if 0 ≤ d.exponent then
      ds ++ List.replicate d.exponent.toNat '0' ++ ['.', '0']
    else
      ds.take (first.toNat + 1) ++ '.' :: ds.drop (first.toNat + 1)
  else
    let fraction := ds.drop 1
    let sign := if first < 0 then ['-'] else if style.plus then ['+'] else []
    ds.take 1 ++ (if fraction.isEmpty then [] else '.' :: fraction)
      ++ 'e' :: sign ++ Nat.toDigits 10 first.natAbs

/-- The text of a finite floating-point number, or nothing. -/
def floatText? (style : Style) (x : Float) : Option (List Char) :=
  match Binary.ofFloat x with
  | .finite negative mantissa exponent lowest =>
    let body :=
      if mantissa = 0 then ['0', '.', '0']
      else (shortest mantissa exponent lowest).text style
    some (if negative then '-' :: body else body)
  | _ => none

end Harvest.Number
