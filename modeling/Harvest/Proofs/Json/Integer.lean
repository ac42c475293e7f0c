/-
  Harvest.Proofs.Json.Integer

  Whole numbers as JSON values: a whole number is read back if it fits sixty-four bits.
-/
import Harvest.Json.Value

namespace Harvest.Json

@[simp] theorem ofInt_inj {n k : Int} : ofInt n = ofInt k ↔ n = k := by
  simp [ofInt]

@[simp] theorem ofInt_ne_null (n : Int) : ofInt n ≠ .null := by
  simp [ofInt]

/-- What is read as a whole number is a whole number that fits. -/
theorem asInt64?_eq_some_iff {v : Json} {n : Int} :
    v.asInt64? = some n ↔
      v = .ofInt n ∧ Number.leastSigned64 ≤ n ∧ n ≤ Number.greatestSigned64 := by
  cases v with
  | number m =>
    cases m with
    | integer k => simp [asInt64?, Number.toInt64?, ofInt]; grind
    | real x => simp [asInt64?, Number.toInt64?, ofInt]
  | _ => simp [asInt64?, ofInt]

/-- A whole number that is read is the one that was written. -/
theorem eq_of_asInt64?_ofInt {n k : Int} (h : (ofInt n).asInt64? = some k) : k = n := by
  obtain ⟨heq, -⟩ := asInt64?_eq_some_iff.mp h
  exact (ofInt_inj.mp heq).symm

/-- A whole number that is read fits. -/
theorem le_of_asInt64? {v : Json} {n : Int} (h : v.asInt64? = some n) :
    n ≤ Number.greatestSigned64 :=
  (asInt64?_eq_some_iff.mp h).2.2

/-- A whole number that is not negative and fits is read back. -/
theorem asInt64?_ofInt {n : Int} (hpos : 0 ≤ n) (hfits : n ≤ Number.greatestSigned64) :
    (ofInt n).asInt64? = some n := by
  have hleast : Number.leastSigned64 ≤ 0 := by decide
  exact asInt64?_eq_some_iff.mpr ⟨rfl, by omega, hfits⟩

end Harvest.Json
