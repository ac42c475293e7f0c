/-
  Harvest.Archive.Basic

  Archives of raw responses: a directory with a file for each category, in which every line
  is a response as it was stored. Opening an archive makes nothing; the directory is made
  when a response is stored.
-/
import Harvest.Files.Writing
import Harvest.World
import Harvest.Json.Record

namespace Harvest

/-- Why an archive could not be used. -/
inductive ArchiveError where
  | emptyPath
  | notADirectory (path : String)
  | io (words : String)
  | lock (words : String)
  | serialization (words : String)
  deriving DecidableEq, Repr

namespace ArchiveError

/-- The words for an error. -/
def message : ArchiveError → String
  | .emptyPath => "archive path cannot be empty"
  | .notADirectory path => "archive path " ++ Text.quoted path ++ " is not a directory"
  | .io words => "IO error: " ++ words
  | .lock words => "lock error: " ++ words
  | .serialization words => "serialization error: " ++ words

/-- Whether an error is one of configuration, which does not go away by itself. -/
def isConfiguration : ArchiveError → Bool
  | .emptyPath => true
  | .notADirectory _ => true
  | _ => false

/-- The error of a file of an archive that cannot be opened. -/
def ofOpening (f : FileFault) : ArchiveError :=
  .io ("Failed to open archive file: " ++ f.message)

/-- The error of a line that was not written. -/
def ofWriting : WriteFault → ArchiveError
  | .opening f => ofOpening f
  | .locking words => .lock ("Failed to acquire write lock: " ++ words)
  | .writing words => .io ("Failed to write archive entry: " ++ words)

end ArchiveError

/-- An open archive. -/
structure Archive where
  path : Path
  deriving DecidableEq, Repr

/-- A raw response as an archive keeps it. -/
structure Response where
  category : String
  origin : String
  archivedAt : Calendar.Instant
  payload : Json

namespace Response

/-- The response as a JSON value. -/
def toJson (r : Response) : Json :=
  .object [("category", .string r.category), ("origin", .string r.origin),
    ("archived_at", .string r.archivedAt.text), ("payload", r.payload)]

/-- The fields of a response in a document. -/
def layout := Json.Layout.field "category" Json.Shape.text .refused <|
  .field "origin" Json.Shape.text .refused <|
  .field "archived_at" Json.Shape.date .refused <|
  .field "payload" Json.Shape.any .refused .done

/-- The shape of a response in a document. -/
def shape : Json.Shape Response :=
  (Json.Shape.record "ArchivedResponse" layout).map
    fun (category, origin, archivedAt, payload, ()) => ⟨category, origin, archivedAt, payload⟩

/-- The line of a response in a file. -/
def line (r : Response) : Bytes := r.toJson.bytes ++ [newline]

end Response

namespace Archive

/-- Opens an archive. A path that leads to nothing is that of an archive yet to be made. -/
def openAt (files : FileTree) (path : Path) : Except ArchiveError Archive :=
  if path.text = "" then .error .emptyPath
  else if files.has path && !files.isDirectory path then .error (.notADirectory path.text)
  else .ok ⟨path⟩

/-- The file of a category. -/
def categoryPath (a : Archive) (category : String) : Path := a.path.join (category ++ ".jsonl")

/-- Appends a line to the file of a category, making the directory of the archive. -/
def append (a : Archive) (category : String) (line : Bytes) (files : FileTree)
    (going : Writing := .whole) : Except ArchiveError Unit × FileTree :=
  match files.makeDirectories a.path with
  | (.error f, files) => (.error (.io f.message), files)
  | (.ok (), files) =>
    -- Directories that were made stay, whatever comes of the file.
    let (written, files) := files.write (a.categoryPath category) line going
    (written.mapError .ofWriting, files)

/-- Stores a response, with the instant that the clock shows. -/
def store {β : Type} (a : Archive) (category origin : String) (payload : Json) (env : Env β)
    (disk : Disk β := .sound) : Except ArchiveError Response × Env β :=
  let (now, clock) := env.clock.read
  let (going, own) := disk env.own
  let response : Response := ⟨category, origin, now, payload⟩
  match a.append category response.line env.files going with
  -- The clock was read even if nothing is written.
  | (.error e, files) => (.error e, { files, clock, own })
  | (.ok (), files) => (.ok response, { files, clock, own })

/-- The files are as if what was written had been the whole line. -/
theorem append_files (a : Archive) (category : String) (line : Bytes) (files : FileTree)
    (going : Writing) :
    (a.append category line files going).2 = (a.append category (going.part line) files).2 := by
  unfold append
  split
  · rfl
  · exact FileTree.write_files _ _ line going

/-- Whatever comes of it, storing changes the files as appending some octets does. -/
theorem store_files {β : Type} (a : Archive) (category origin : String) (payload : Json)
    (env : Env β) (disk : Disk β) :
    ∃ line, (a.store category origin payload env disk).2.files =
      (a.append category line env.files).2 := by
  let response : Response := ⟨category, origin, env.clock.read.1, payload⟩
  refine ⟨(disk env.own).1.part response.line, ?_⟩
  rw [← append_files]
  unfold store
  dsimp only
  split
  · next h => rw [h]
  · next h => rw [h]

end Archive
end Harvest
