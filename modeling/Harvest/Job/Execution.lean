/-
  Harvest.Job.Execution

  Executing a request: the job is set up and run until a run ends well, or ends with an
  error after which the job is not run again.
-/
import Harvest.Job.Notice
import Harvest.Job.Retry
import Harvest.Job.Run

namespace Harvest

/-- A job that did not end well: the error of its last run, and the checkpoint if the job
    came to be set up. -/
structure Failure where
  error : JobError
  checkpoint : Option Checkpoint

/-- The words for a failure, which are those for its error. -/
def Failure.message (f : Failure) : String := f.error.message

/-- The words for what lies behind a failure. -/
def Failure.sources (f : Failure) : List String := f.error.sources

/-- What executing a request has come to, what was told and counted on the way, the items
    that the queue took in order, and the world. -/
structure Execution (β κ : Type) where
  result : Except Failure Checkpoint
  notices : List Notice
  samples : List Sample
  items : List Item
  world : World β κ

/-- Puts in front what was told, counted and taken before. -/
def Execution.after {β κ : Type} (e : Execution β κ) (notices : List Notice)
    (samples : List Sample) (items : List Item) : Execution β κ :=
  { e with
    notices := notices ++ e.notices
    samples := samples ++ e.samples
    items := items ++ e.items }

namespace Request

variable {β κ : Type}

/-- The samples of a job that failed. -/
def failureSamples (r : Request) : List Sample :=
  [.jobFailed r.backend r.category, .jobTimed false]

/-- The end of a job with an error. -/
def cancelled (r : Request) (job : Job β κ) (failures : Nat) (e : JobError)
    (world : World β κ) : Execution β κ where
  result := .error ⟨e, some job.checkpoint⟩
  notices := [.cancelled job.jobId r.taskId r.backend failures e.message]
  samples := r.failureSamples
  items := []
  world := world

/-- The end of a job that ended well. -/
def completed (r : Request) (job : Job β κ) (world : World β κ) : Execution β κ where
  result := .ok job.checkpoint
  notices :=
    let c := job.checkpoint
    [.completed c.jobId c.taskId c.backend c.category c.items c.resumes]
  samples := [.jobCompleted r.backend r.category, .jobTimed true]
  items := []
  world := world

/-- The samples of the items that a run has passed on. -/
def forwardedSamples (job : Job β κ) (items : List Item) : List Sample :=
  items.map fun _ => .itemForwarded job.checkpoint.backend job.category

/-- Runs a job that has failed so many times until it is not run again. At most `spare`
    runs follow the first one. -/
def attempts (r : Request) (policy : RetryPolicy) :
    (spare failures : Nat) → (resume : Bool) → Job β κ → World β κ → Execution β κ
  | spare, failures, resume, job, world =>
    let run := job.run r.args r.archive resume world
    -- The policy sees the failures before this run.
    let transition := policy.next failures (.classify run.result)
    let failures := transition.failures
    let forwarded := forwardedSamples run.job run.items
    match transition.action, spare with
    | .finish, _ => (r.completed run.job run.world).after [] forwarded run.items
    | .raise e, _ => (r.cancelled run.job failures e run.world).after [] forwarded run.items
    | .run resume, spare + 1 =>
      (r.attempts policy spare failures resume run.job run.world).after
        [.resuming run.job.jobId r.taskId r.backend failures policy.maxRetries]
        (forwarded ++ [.jobResumed r.backend r.category]) run.items
    -- The budget of a policy runs out no later than the spare runs.
    | .run _, 0 =>
      match run.result with
      | .error e => (r.cancelled run.job failures e run.world).after [] forwarded run.items
      | .ok () => (r.completed run.job run.world).after [] forwarded run.items

/-- Sets up the job of a request. -/
def setUp (r : Request) (registry : Registry β) (queue : Queue κ) (jobId : String)
    (files : FileTree) : Except JobError (Job β κ) := do
  r.validate.mapError fun f => .configuration f.message
  let job ← Job.create registry queue jobId r.taskId r.backend r.category r.queue
  job.withArchive files r.archive

/-- Executes a request. The job has the identifier `fresh` if the request names none. -/
def execute (r : Request) (registry : Registry β) (queue : Queue κ) (fresh : String)
    (world : World β κ) : Execution β κ :=
  let jobId := r.jobId.getD fresh
  match r.setUp registry queue jobId world.env.files with
  | .error e =>
    { result := .error ⟨e, none⟩
      notices := [.refused jobId r.taskId r.backend e.message]
      samples := r.failureSamples
      items := []
      world }
  | .ok job =>
    -- The job is set up by now, so that a failure has its checkpoint.
    match validateArchiving job.backend r.archive with
    | .error e =>
      { result := .error ⟨e, some job.checkpoint⟩
        notices := []
        samples := r.failureSamples
        items := []
        world }
    | .ok () =>
      r.attempts ⟨r.maxRetries, job.backend.resuming⟩ r.maxRetries 0 false job world

end Request
end Harvest
