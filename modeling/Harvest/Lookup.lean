/-
  Harvest.Lookup

  Looking up by a key in a list of keys with values, of which the first one with the key
  counts.
-/

namespace Harvest

/-- Looking up looks at the first key, and then at the others. -/
theorem lookup_cons_ite {α β : Type} [BEq α] [LawfulBEq α] [DecidableEq α] (k : α) (v : β)
    (rest : List (α × β)) (a : α) :
    List.lookup a ((k, v) :: rest) = if a = k then some v else rest.lookup a := by
  rw [List.lookup_cons]
  by_cases h : a = k
  · simp [h]
  · simp [h, beq_eq_false_iff_ne.mpr h]

end Harvest
