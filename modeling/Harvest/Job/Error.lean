/-
  Harvest.Job.Error

  Why a job fails. An error is fatal if every run of the job would end with it, and only
  the others are worth another run.
-/
import Harvest.Backend.Basic
import Harvest.Queue.Basic

namespace Harvest

/-- Why a job could not be made, or why a run of it failed. -/
inductive JobError where
  | notFound (name : String)
  | configuration (words : String)
  | backend (e : BackendError)
  | archive (e : ArchiveError)
  | queue (e : QueueError)
  | serialization (words : String)
  | invalidItem (words : String)
  deriving DecidableEq, Repr

namespace JobError

/-- The words for an error. -/
def message : JobError → String
  | .notFound name => "backend " ++ name ++ " not found"
  | .configuration words => "configuration error: " ++ words
  | .backend e => "backend error: " ++ e.message
  | .archive e => "archive error: " ++ e.message
  | .queue e => "queue error: " ++ e.message
  | .serialization words => "serialization error: " ++ words
  | .invalidItem words => "invalid item: " ++ words

/-- Whether another run could not end otherwise. -/
def isFatal : JobError → Bool
  | .notFound _ => true
  | .configuration _ => true
  | .backend e => e.isConfiguration
  | .archive e => e.isConfiguration
  | _ => false

/-- The words for what lies behind an error, from the nearest on. -/
def sources : JobError → List String
  | .backend e => e.message :: e.sources
  | .archive e => [e.message]
  | .queue e => [e.message]
  | _ => []

end JobError
end Harvest
