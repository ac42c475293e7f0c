/-
  Harvest.Queue.Lines

  Queues in a directory of files. Each queue has a file, and each payload is a line of it,
  so that a payload with a newline is refused before anything is touched.
-/
import Harvest.Files.Writing
import Harvest.Queue.Basic

namespace Harvest.Queue

/-- The file of a queue in a directory. -/
def linesPath (dir : Path) (name : String) : Path := dir.join (name ++ ".jsonl")

/-- The error of a line that was not written. -/
def ofWriting : WriteFault → QueueError
  | .opening f => .io ("Failed to open queue file: " ++ f.message)
  | .locking words => .lock ("Failed to acquire write lock: " ++ words)
  | .writing words => .io ("Failed to append to queue: " ++ words)

/-- Appends a line to a file, making its directory. -/
def appendLine (path : Path) (payload : Bytes) (files : FileTree) (going : Writing := .whole) :
    Except QueueError Unit × FileTree :=
  let (made, files) :=
    match path.parent? with
    | some above => files.makeDirectories above
    | none => (.ok (), files)
  match made with
  | .error f => (.error (.io f.message), files)
  | .ok () =>
    let (written, files) := files.write path (payload ++ [newline]) going
    (written.mapError ofWriting, files)

/-- The queues in a directory. -/
def lines {κ : Type} (dir : Path) (disk : Disk κ := .sound) : Queue κ where
  push name payload s :=
    if payload.contains newline then (.error (.invalidPayload "payload contains a newline"), s)
    else
      let (going, own) := disk s.own
      let (result, files) := appendLine (linesPath dir name) payload s.files going
      (result, { files, own })

end Harvest.Queue
