/-
  Harvest.Number.Binary

  The exact value of a binary floating-point number: a whole mantissa times a power of
  two. Comparison, rounding and printing work on this value, in exact arithmetic.
-/
import Harvest.Number.Range

namespace Harvest.Number

/-- The value of a floating-point number. A finite one is `mantissa * 2 ^ exponent` with
    its sign, and `lowest` tells that the gap below it is half the gap above it. -/
inductive Binary where
  | finite (negative : Bool) (mantissa : Nat) (exponent : Int) (lowest : Bool)
  | infinite (negative : Bool)
  | notANumber
  deriving DecidableEq, Repr

/-- The value that the sixty-four bits of a number stand for. -/
def Binary.ofBits (bits : Nat) : Binary :=
  let negative := bits / 0x8000000000000000 % 2 == 1
  let exponent : Nat := bits / 0x10000000000000 % 0x800
  let fraction : Nat := bits % 0x10000000000000
  if exponent = 2047 then
    if fraction = 0 then .infinite negative else .notANumber
  -- Numbers below the least normal one have no leading bit.
  else if exponent = 0 then .finite negative fraction (-1074) false
  else
    .finite negative (0x10000000000000 + fraction) ((exponent : Int) - 1075)
      -- The gap halves below a power of two, but for the least normal number.
      (fraction == 0 && exponent != 1)

/-- The value of a floating-point number. -/
def Binary.ofFloat (x : Float) : Binary := .ofBits x.toBits.toNat

/-- The whole number nearest to `mantissa * 2 ^ exponent`; a half goes up. -/
def roundHalfUp (mantissa : Nat) (exponent : Int) : Nat :=
  if 0 ≤ exponent then mantissa * power 2 exponent.toNat
  else
    let unit := power 2 (-exponent).toNat
    (2 * mantissa + unit) / (2 * unit)

/-- The whole number nearest to a value, a half going away from zero; nothing for an
    infinite value or for no number. -/
def Binary.round? : Binary → Option Int
  | .finite negative mantissa exponent _ =>
    let n : Int := roundHalfUp mantissa exponent
    some (if negative then -n else n)
  | _ => none

/-- The sixty-four bit whole number nearest to a value: what lies outside their range goes
    to its nearer end, and no number goes to zero. -/
def Binary.clampedRound : Binary → Int
  | .infinite true => leastSigned64
  | .infinite false => greatestSigned64
  | .notANumber => 0
  | b => max leastSigned64 (min greatestSigned64 (b.round?.getD 0))

/-- The sixty-four bit whole number nearest to `x`, a half going away from zero. -/
def roundToInt64 (x : Float) : Int := (Binary.ofFloat x).clampedRound

example : roundToInt64 (-0.5) = -1 := by decide +kernel
example : roundToInt64 2.4999 = 2 := by decide +kernel

/-- The floating-point number nearest to a whole number, an even mantissa on a tie, for a
    number whose magnitude fits sixty-four bits. -/
def floatOfInt (n : Int) : Float :=
  if 0 ≤ n then n.toNat.toUInt64.toFloat else -((-n).toNat.toUInt64.toFloat)

end Harvest.Number
