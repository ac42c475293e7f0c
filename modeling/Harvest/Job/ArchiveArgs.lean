/-
  Harvest.Job.ArchiveArgs

  How a job uses an archive: it stores what it fetches, or it replays what was stored.
-/
import Harvest.Json.Record
import Harvest.Calendar.Text

namespace Harvest

/-- The archive of a job and what it is used for. -/
structure ArchiveArgs where
  path : String
  /-- Whether responses are replayed instead of fetched. -/
  replays : Bool
  /-- The instant after which a response has to be archived to be replayed. -/
  after : Option Calendar.Instant
  deriving DecidableEq

namespace ArchiveArgs

/-- Stores what is fetched. -/
def store (path : String) : ArchiveArgs := ⟨path, false, none⟩

/-- Replays what was stored. -/
def replay (path : String) (after : Option Calendar.Instant) : ArchiveArgs := ⟨path, true, after⟩

/-- The arguments as a JSON value. -/
def toJson (a : ArchiveArgs) : Json :=
  .object [("archive_path", .string a.path), ("fetch_from_archive", .bool a.replays),
    ("archived_after", .ofOption (fun t => .string t.text) a.after)]

/-- The fields of the arguments in a document. -/
def layout := Json.Layout.field "archive_path" Json.Shape.text .refused <|
  .field "fetch_from_archive" Json.Shape.flag (.fallback false) <|
  .field "archived_after" Json.Shape.date.nullable (.fallback none) .done

/-- The shape of the arguments in a document. -/
def shape : Json.Shape ArchiveArgs :=
  (Json.Shape.record "ArchiveArgs" layout).map fun (path, replays, after, ()) =>
    ⟨path, replays, after⟩

end ArchiveArgs

/-- Where the items of a run come from. -/
inductive Route where
  | live
  | replay (after : Option Calendar.Instant)
  deriving DecidableEq

/-- The route of a run: a replay if the arguments say so, and else a fetch. -/
def Route.select : Option ArchiveArgs → Route
  | none => .live
  | some a => if a.replays then .replay a.after else .live

end Harvest
