/-
  Harvest.World

  The world in which items are fetched and forwarded: a tree of files, a clock, and what
  backends and queues keep for themselves. Backends see the files and the clock, queues the
  files, and neither what the other keeps.
-/
import Harvest.Files.Tree
import Harvest.Calendar.Text

namespace Harvest

/-- A clock: the instants that it shows one after the other, and how many were read. -/
structure Clock where
  shown : Nat → Calendar.Instant
  readings : Nat

/-- Reads a clock. -/
def Clock.read (c : Clock) : Calendar.Instant × Clock :=
  (c.shown c.readings, { c with readings := c.readings + 1 })

/-- What a backend works in. -/
structure Env (β : Type) where
  files : FileTree
  clock : Clock
  own : β

/-- What a queue works in. -/
structure Store (κ : Type) where
  files : FileTree
  own : κ

/-- What a job works in. -/
structure World (β κ : Type) where
  env : Env β
  queue : κ

namespace World

variable {β κ : Type}

/-- What the queue of a job works in. -/
def store (w : World β κ) : Store κ := ⟨w.env.files, w.queue⟩

end World
end Harvest
