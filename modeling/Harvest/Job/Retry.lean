/-
  Harvest.Job.Retry

  When a job is run again. A run that fails is followed by another, which goes on from the
  checkpoint, unless its error is fatal, its backend cannot go on, or the failures have
  used up what the job may have.
-/
import Harvest.Job.Error

namespace Harvest

/-- Where a job stands after a run. -/
inductive JobState where
  | running
  | retry
  | success
  | fatal
  deriving DecidableEq, Repr

/-- What a run has come to, with regard to another one. -/
inductive RunOutcome where
  | success
  | retryable (e : JobError)
  | fatal (e : JobError)
  deriving DecidableEq, Repr

/-- Tells the errors after which another run is worth it. -/
def RunOutcome.classify : Except JobError Unit → RunOutcome
  | .ok () => .success
  | .error e => if e.isFatal then .fatal e else .retryable e

/-- What to do next. -/
inductive Action where
  | run (resume : Bool)
  | finish
  | raise (e : JobError)
  deriving DecidableEq, Repr

/-- A step of a job from one run to what follows. -/
structure Transition where
  state : JobState
  failures : Nat
  action : Action
  deriving DecidableEq, Repr

/-- How often a job may fail, and whether its backend can go on from a checkpoint. -/
structure RetryPolicy where
  /-- The number of failures that cancels the job. -/
  maxRetries : Nat
  resumable : Bool
  deriving DecidableEq, Repr

/-- The step that follows a run, of a job that has failed so many times before it. -/
def RetryPolicy.next (p : RetryPolicy) (failures : Nat) : RunOutcome → Transition
  | .success => ⟨.success, failures, .finish⟩
  | .fatal e => ⟨.fatal, failures, .raise e⟩
  | .retryable e =>
    if !p.resumable || p.maxRetries ≤ failures + 1 then ⟨.fatal, failures + 1, .raise e⟩
    else ⟨.retry, failures + 1, .run true⟩

namespace RetryPolicy

/-- Another run follows only an error that is worth it, and only as long as failures are
    left. -/
theorem next_action_eq_run_iff (p : RetryPolicy) (failures : Nat) (o : RunOutcome)
    (resume : Bool) :
    (p.next failures o).action = .run resume ↔
      resume = true ∧ p.resumable = true ∧ failures + 1 < p.maxRetries ∧
        ∃ e, o = .retryable e := by
  cases o with
  | success => simp [next]
  | fatal e => simp [next]
  | retryable e =>
    simp only [next]
    split
    · next h =>
      simp only [Bool.or_eq_true, Bool.not_eq_true', decide_eq_true_eq] at h
      simp only [reduceCtorEq, false_iff, not_and]
      intro _ hr hf
      rcases h with h | h
      · simp [h] at hr
      · omega
    · next h =>
      simp only [Bool.or_eq_true, Bool.not_eq_true', decide_eq_true_eq, not_or,
        Bool.not_eq_false, Nat.not_le] at h
      constructor
      · intro e'
        cases e'
        exact ⟨rfl, h.1, h.2, e, rfl⟩
      · rintro ⟨rfl, _⟩
        rfl

end RetryPolicy
end Harvest
