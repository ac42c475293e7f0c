/-
  Harvest.Backend.Basic

  Backends: named sources of items. A backend fetches the items of a category from its
  source, or replays the responses that an archive keeps, and gives a stream of items and
  errors.
-/
import Harvest.Archive.Replay
import Harvest.Item

namespace Harvest

/-- Why a backend could not fetch. -/
inductive BackendError where
  | missingArgument (words : String)
  | invalidArgument (words : String)
  | unsupportedCategory (words : String)
  | io (words : String)
  | parse (words : String)
  | archive (e : ArchiveError)
  | fetch (words : String)
  deriving DecidableEq, Repr

namespace BackendError

/-- The words for an error. -/
def message : BackendError → String
  | .missingArgument words => "missing required argument: " ++ words
  | .invalidArgument words => "invalid argument: " ++ words
  | .unsupportedCategory words => "unsupported category: " ++ words
  | .io words => "IO error: " ++ words
  | .parse words => "parse error: " ++ words
  | .archive e => "archive error: " ++ e.message
  | .fetch words => "fetch error: " ++ words

/-- Whether an error is one of the arguments, with which every fetch would fail. -/
def isConfiguration : BackendError → Bool
  | .missingArgument _ => true
  | .invalidArgument _ => true
  | .unsupportedCategory _ => true
  | .archive e => e.isConfiguration
  | _ => false

/-- The words for what lies behind an error, from the nearest on. -/
def sources : BackendError → List String
  | .archive e => [e.message]
  | _ => []

end BackendError

/-- A stream of items and errors. -/
abbrev Items (β : Type) := Feed (Env β) (Except BackendError Item)

/-- The start of a fetch: an error or a stream, and the world after it. -/
abbrev Opening (β : Type) := Except BackendError (Items β) × Env β

/-- A source of items. -/
structure Backend (β : Type) where
  name : String
  categories : List String
  /-- Whether raw responses can be stored in an archive and replayed from one. -/
  archiving : Bool
  /-- Whether a fetch that failed can go on from a date or an offset. -/
  resuming : Bool
  /-- Fetches the items of a category; raw responses go into the archive, if one is given. -/
  fetch : (category : String) → Fields → Option Archive → Env β → Opening β
  /-- Makes the items of a category anew from an archive, of the responses that were
      archived later than an instant, if one is given. -/
  replay : (category : String) → Fields → Archive → Option Calendar.Instant → Env β → Opening β

/-- Refuses a category that a backend has no items of. -/
def checkCategory (name : String) (categories : List String) (category : String) :
    Except BackendError Unit :=
  if categories.contains category then .ok ()
  else .error (.unsupportedCategory
    (category ++ " (backend " ++ name ++ " supports " ++ Text.quotedList categories ++ ")"))

/-- Refuses a category that the backend has no items of. -/
def Backend.check {β : Type} (b : Backend β) (category : String) : Except BackendError Unit :=
  checkCategory b.name b.categories category

end Harvest
