/-
  Harvest.Queue.Basic

  Queues: named sequences of payloads, to which payloads are appended. A push appends its
  payload, or it appends nothing and says why.
-/
import Harvest.World

namespace Harvest

/-- Why a payload could not be appended. -/
inductive QueueError where
  | io (words : String)
  | lock (words : String)
  | invalidPayload (words : String)
  deriving DecidableEq, Repr

/-- The words for an error. -/
def QueueError.message : QueueError → String
  | .io words => "IO error: " ++ words
  | .lock words => "lock error: " ++ words
  | .invalidPayload words => "invalid payload: " ++ words

/-- A queue that keeps a `κ`. -/
structure Queue (κ : Type) where
  push : (name : String) → (payload : Bytes) → Store κ → Except QueueError Unit × Store κ

end Harvest
