/-
  Harvest.Proofs.Outcome

  Steps that may fail, one after the other: a step that succeeds goes on with its value, and one
  that fails ends them with its error.
-/
import Harvest.Lookup

namespace Harvest

variable {ε α γ : Type}

theorem bind_of_ok {step : Except ε α} {a : α} (h : step = .ok a) (next : α → Except ε γ) :
    step >>= next = next a := by
  rw [h]
  rfl

theorem bind_of_error {step : Except ε α} {e : ε} (h : step = .error e)
    (next : α → Except ε γ) : step >>= next = .error e := by
  rw [h]
  rfl

/-- Steps that end well behind a check have passed it. -/
theorem of_check_eq_ok {refused : Prop} [Decidable refused] {e : ε} {next : Unit → Except ε γ}
    {c : γ} (h : (if refused then (throw e : Except ε Unit) >>= next else next ()) = .ok c) :
    ¬ refused ∧ next () = .ok c := by
  by_cases hrefused : refused
  · rw [if_pos hrefused] at h
    cases h
  · rw [if_neg hrefused] at h
    exact ⟨hrefused, h⟩

/-- A step whose value is turned into another ends well if it does so itself. -/
theorem of_map_eq_ok {step : Except ε α} {f : α → γ} {c : γ} (h : step.map f = .ok c) :
    ∃ a, step = .ok a ∧ f a = c := by
  cases step with
  | error e => cases h
  | ok a =>
    cases h
    exact ⟨a, rfl, rfl⟩

/-- Two steps that end well have both done so. -/
theorem of_bind_eq_ok {step : Except ε α} {next : α → Except ε γ} {c : γ}
    (h : step >>= next = .ok c) : ∃ a, step = .ok a ∧ next a = .ok c := by
  cases step with
  | error e => cases h
  | ok a => exact ⟨a, rfl, h⟩

end Harvest
