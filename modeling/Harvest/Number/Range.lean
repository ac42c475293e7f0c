/-
  Harvest.Number.Range

  The ends of the ranges of whole numbers of a fixed width, what becomes of a number behind them,
  and powers.
-/

namespace Harvest.Number

/-- The least number of sixty-four bits with a sign. -/
def leastSigned64 : Int := -0x8000000000000000

/-- The greatest number of sixty-four bits with a sign. -/
def greatestSigned64 : Int := 0x7FFFFFFFFFFFFFFF

/-- The greatest number of sixty-four bits without sign. -/
def greatestUnsigned64 : Nat := 0xFFFFFFFFFFFFFFFF

/-- The least number of thirty-two bits with a sign. -/
def leastSigned32 : Int := -0x80000000

/-- The greatest number of thirty-two bits with a sign. -/
def greatestSigned32 : Nat := 0x7FFFFFFF

/-- The greatest number of thirty-two bits without sign. -/
def greatestUnsigned32 : Nat := 0xFFFFFFFF

/-- A count in so many bits that there is a greatest one: behind it comes zero. -/
def wrap (greatest n : Nat) : Nat := n % (greatest + 1)

/-- A number in sixty-four bits with a sign: behind the greatest comes the least. -/
def wrapSigned64 (n : Int) : Int :=
  (n - leastSigned64) % ((greatestUnsigned64 : Int) + 1) + leastSigned64

/-- A power of a base. -/
def power (base exponent : Nat) : Nat := Nat.pow base exponent

/-- A count that is not too great is kept as it is. -/
theorem wrap_of_le {greatest n : Nat} (h : n ≤ greatest) : wrap greatest n = n :=
  Nat.mod_eq_of_lt (Nat.lt_succ_of_le h)

/-- It makes no difference whether a count went round before more is added to it. -/
@[simp] theorem wrap_wrap_add (greatest m n : Nat) :
    wrap greatest (wrap greatest m + n) = wrap greatest (m + n) :=
  Nat.mod_add_mod m (greatest + 1) n

/-- A number that is in the range is kept as it is. -/
theorem wrapSigned64_of_mem {n : Int} (hleast : leastSigned64 ≤ n)
    (hgreatest : n ≤ greatestSigned64) : wrapSigned64 n = n := by
  unfold wrapSigned64
  unfold leastSigned64 greatestSigned64 greatestUnsigned64 at *
  omega

example : wrapSigned64 (greatestSigned64 + 1) = leastSigned64 := by decide

theorem power_pos {base : Nat} (h : 0 < base) (exponent : Nat) : 0 < power base exponent :=
  Nat.pow_pos h

end Harvest.Number
