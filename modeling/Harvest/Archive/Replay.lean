/-
  Harvest.Archive.Replay

  Reading an archive back. The responses of a category come in the order in which they were
  stored. A line that is not ended is one still being written and ends the stream; a line
  that cannot be read ends it with an error.
-/
import Harvest.Archive.Basic
import Harvest.Files.Lines
import Harvest.Feed

namespace Harvest.Archive

/-- Whether a response was archived later than an instant, if one is given. -/
def isLater (after : Option Calendar.Instant) (r : Response) : Bool :=
  match after with
  | none => true
  | some t => !r.archivedAt.le t

/-- What a line of a file gives. -/
inductive Reply where
  /-- The line is still being written. -/
  | unfinished
  /-- The line is blank, or its response is not asked for. -/
  | nothing
  | refused (e : ArchiveError)
  | response (r : Response)

/-- Reads a line of a file. -/
def readLine (after : Option Calendar.Instant) (line : Bytes) : Reply :=
  match Utf8.decode line with
  | .error f => .refused (.io f.message)
  | .ok cs =>
    -- A line still being written has to be text up to where it ends.
    if !isEnded line then .unfinished
    else if Text.isBlankText cs then .nothing
    else
      match Response.shape.ofChars cs with
      | .error r => .refused (.serialization r.message)
      | .ok r => if isLater after r then .response r else .nothing

/-- The next response of several lines with the lines behind it, the error that ends them,
    or nothing. -/
def next? (after : Option Calendar.Instant) :
    List Bytes → Option (Except ArchiveError (Response × List Bytes))
  | [] => none
  | l :: ls =>
    match readLine after l with
    | .unfinished => none
    | .nothing => next? after ls
    | .refused e => some (.error e)
    | .response r => some (.ok (r, ls))

/-- All responses of several lines, and the error that ends them if there is one. -/
def readLines (after : Option Calendar.Instant) :
    List Bytes → List (Except ArchiveError Response)
  | [] => []
  | l :: ls =>
    match readLine after l with
    | .unfinished => []
    | .nothing => readLines after ls
    | .refused e => [.error e]
    | .response r => .ok r :: readLines after ls

/-- Reads on to the next response. -/
def advance {β : Type} (after : Option Calendar.Instant) (reading : Reading) (env : Env β) :
    Option (Except ArchiveError Response × Option Reading) × Env β :=
  match reading.lines env.files with
  | .error f => (some (.error (.io f.message), none), env)
  | .ok lines =>
    match next? after lines with
    | none => (none, env)
    | some (.error e) => (some (.error e, none), env)
    | some (.ok (r, rest)) => (some (.ok r, some (reading.upTo lines rest)), env)

/-- The responses stored for a category, those archived later than an instant if one is
    given. A category without a file has none. -/
def responses {β : Type} (a : Archive) (category : String) (after : Option Calendar.Instant)
    (files : FileTree) : Except ArchiveError (Feed (Env β) (Except ArchiveError Response)) :=
  match files.locate (a.categoryPath category) with
  -- Nothing has been stored for the category yet.
  | .error .notFound => .ok Feed.empty
  | .error f => .error (.ofOpening f)
  | .ok place => .ok (Feed.unfold (advance after) (files.lineBound place) ⟨place, 0⟩)

end Harvest.Archive
