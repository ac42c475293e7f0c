/-
  Harvest.Json.Numeral

  Numbers of a JSON text. The digits are gathered into a significand of sixty-four bits;
  those that do not fit it only count for the exponent. A number without fraction and
  exponent whose digits all fit is a whole number, and every other number is its
  significand, rounded to a floating-point number, times or over a power of ten.
-/
import Harvest.Json.Reader

namespace Harvest.Json

/-- The value of a decimal digit. -/
def decimalDigit? (c : Char) : Option Nat := if c.isDigit then some (c.toNat - 48) else none

/-- Whether a text goes on with a digit. -/
def startsWithDigit : List Char → Bool
  | [] => false
  | c :: _ => c.isDigit

/-- Takes digits into a significand as long as it fits sixty-four bits, and counts them. -/
def takeDigits (significand taken : Nat) : List Char → Nat × Nat × List Char
  | [] => (significand, taken, [])
  | c :: cs =>
    match decimalDigit? c with
    | none => (significand, taken, c :: cs)
    | some d =>
      -- This digit and all behind it only count for the exponent.
      if Harvest.Number.greatestUnsigned64 < 10 * significand + d then (significand, taken, c :: cs)
      else takeDigits (10 * significand + d) (taken + 1) cs

/-! ## The value -/

/-- The floating-point number nearest to a power of ten. -/
def powerOfTen (n : Nat) : Float := Float.ofScientific 1 false n

/-- The greatest power of ten that a floating-point number reaches. -/
def greatestPower : Nat := 308

/-- `x * 10 ^ exponent`, or nothing if it is too large. An exponent below the least power
    of ten is met by repeated division, of which three leave nothing of any significand. -/
def scaled? : Nat → Float → Int → Option Float
  | 0, x, _ => some x
  | fuel + 1, x, exponent =>
    if exponent.natAbs ≤ greatestPower then
      if 0 ≤ exponent then
        let y := x * powerOfTen exponent.toNat
        if y.isInf then none else some y
      else some (x / powerOfTen (-exponent).toNat)
    -- What is too small for any power of ten has become zero by now.
    else if x == 0 then some x
    else if 0 ≤ exponent then none
    else scaled? fuel (x / powerOfTen greatestPower) (exponent + greatestPower)

/-- A number with its sign. -/
def signed (negative : Bool) (x : Float) : Float := if negative then -x else x

/-- The floating-point number of a significand and an exponent, if it is not too large. -/
def realOf? (negative : Bool) (significand : Nat) (exponent : Int) : Option Float :=
  (scaled? 4 (Harvest.Number.floatOfInt significand) exponent).map (signed negative)

/-- The whole number of a significand. Zero with a minus sign, and a negative number that
    does not fit sixty-four bits, are floating-point numbers. -/
def integerOf (negative : Bool) (significand : Nat) : Number :=
  if !negative then .integer significand
  else if significand = 0 ∨ Harvest.Number.leastSigned64.natAbs < significand then
    .real (signed true (Harvest.Number.floatOfInt significand))
  else .integer (-significand)

/-! ## The text -/

/-- Ends a number with a fraction or an exponent. -/
def endReal (negative : Bool) (significand : Nat) (exponent : Int) : Reader Number := fun cs =>
  match realOf? negative significand exponent with
  | some x => .ok (.real x, cs)
  | none => .error (.here .numberOutOfRange cs)

/-- What the digits of an exponent give. -/
inductive Exponent where
  | value (n : Nat)
  | tooLarge
  deriving DecidableEq

/-- Takes the digits of an exponent, which fits thirty-two bits or is too large. -/
def takeExponent (n : Nat) : List Char → Exponent × List Char
  | [] => (.value n, [])
  | c :: cs =>
    match decimalDigit? c with
    | none => (.value n, c :: cs)
    | some d => 
      if Harvest.Number.greatestSigned32 < 10 * n + d then (.tooLarge, cs)
      else takeExponent (10 * n + d) cs

/-- Reads the sign of an exponent: whether it is negative. -/
def takeSign : List Char → Bool × List Char
  | '+' :: cs => (false, cs)
  | '-' :: cs => (true, cs)
  | cs => (false, cs)

/-- Reads a number from behind the `e` of its exponent. An exponent that is too large makes
    the number too large, or zero. -/
def readExponent (negative : Bool) (significand : Nat) (exponent : Int) : Reader Number :=
  fun cs =>
    let (down, cs) := takeSign cs
    match cs with
    | [] => .error (.here .endInValue [])
    | c :: rest =>
      match decimalDigit? c with
      | none => .error (.next .invalidNumber (c :: rest))
      | some d =>
        match takeExponent d rest with
        | (.value n, rest) =>
          endReal negative significand (if down then exponent - n else exponent + n) rest
        | (.tooLarge, rest) =>
          -- Zero stays zero, and a number this small becomes it.
          if significand ≠ 0 ∧ !down then .error (.here .numberOutOfRange rest)
          else .ok (.real (signed negative 0), rest.dropWhile Char.isDigit)

/-- Reads a number from behind its point. -/
def readFraction (negative : Bool) (significand : Nat) (exponent : Int) : Reader Number :=
  fun cs =>
    if !startsWithDigit cs then
      match cs with
      | [] => .error (.here .endInValue [])
      | cs => .error (.next .invalidNumber cs)
    else
      let (significand, taken, rest) := takeDigits significand 0 cs
      let exponent := exponent - taken
      match rest.dropWhile Char.isDigit with
      | 'e' :: rest => readExponent negative significand exponent rest
      | 'E' :: rest => readExponent negative significand exponent rest
      | rest => endReal negative significand exponent rest

/-- Reads a number from behind its whole part, of which `dropped` digits did not fit. -/
def readTail (negative : Bool) (significand dropped : Nat) : Reader Number
  | '.' :: rest => readFraction negative significand dropped rest
  | 'e' :: rest => readExponent negative significand dropped rest
  | 'E' :: rest => readExponent negative significand dropped rest
  | rest =>
    if dropped = 0 then .ok (integerOf negative significand, rest)
    else endReal negative significand dropped rest

/-- Reads a number from behind its sign. A zero in front is the whole of its whole part. -/
def readMagnitude (negative : Bool) : Reader Number
  | [] => .error (.here .endInValue [])
  | c :: cs =>
    match decimalDigit? c with
    | none => .error (.next .invalidNumber (c :: cs))
    | some 0 =>
      if startsWithDigit cs then .error (.next .invalidNumber cs)
      else readTail negative 0 0 cs
    | some d =>
      let (significand, _, rest) := takeDigits d 1 cs
      let after := rest.dropWhile Char.isDigit
      readTail negative significand (rest.length - after.length) after

/-- Reads a number. -/
def readNumber : Reader Number
  | '-' :: cs => readMagnitude true cs
  | cs => readMagnitude false cs

end Harvest.Json
