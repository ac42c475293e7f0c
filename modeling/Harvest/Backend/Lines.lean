/-
  Harvest.Backend.Lines

  The backend that reads records from a file, one on each line. A record that is wanted is
  archived before its item is given, and the stream ends with the first error. A replay
  makes the items anew from what was archived.
-/
import Harvest.Backend.Record
import Harvest.Backend.Registry

namespace Harvest.Lines

/-! ## From the file -/

/-- What a fetch from a file looks for. -/
structure Task where
  origin : String
  category : String
  filters : Filters
  archive : Option Archive

/-- What a line of a file gives. -/
inductive Reply where
  /-- The line is blank, or its record is not wanted. -/
  | nothing
  | refused (e : BackendError)
  | record (item : Item) (record : Json)

/-- Reads a line of a file. Even a line that is passed over has to be text. -/
def readLine (task : Task) (number : Int) (line : Bytes) : Reply :=
  -- What ends the line is dropped first: a character cut short there is incomplete.
  match Utf8.decode (chomp line) with
  | .error f => .refused (.io f.message)
  | .ok cs =>
    -- A line that is passed over may hold anything: it is not parsed.
    if Text.isBlankText cs || task.filters.skipsLine number then .nothing
    else
      match Json.ofChars cs with
      | .error r => .refused (.parse ("line " ++ toString number ++ ": " ++ r.message))
      | .ok record =>
        -- No file has more lines than can be numbered.
        match Record.toItem task.origin task.category number (number + 1) record with
        | .error e => .refused e
        | .ok item => if task.filters.skipsItem item then .nothing else .record item record

/-- A record that is wanted. -/
structure Hit where
  item : Item
  record : Json
  number : Int
  rest : List Bytes

/-- The next record of several lines that is wanted, the error that ends them, or nothing;
    the lines are numbered from `number` on. -/
def next? (task : Task) (number : Int) : List Bytes → Option (Except BackendError Hit)
  | [] => none
  | l :: ls =>
    match readLine task number l with
    | .nothing => next? task (number + 1) ls
    | .refused e => some (.error e)
    | .record item record => some (.ok ⟨item, record, number, ls⟩)

/-- How far a file has been read, and the number of the next line. -/
structure Cursor where
  reading : Reading
  number : Int

/-- Archives a record. -/
def keep {β : Type} (disk : Disk β) (task : Task) (hit : Hit) (env : Env β) :
    Except BackendError Unit × Env β :=
  match task.archive with
  | none => (.ok (), env)
  | some a =>
    match a.store task.category task.origin (Record.payload hit.number hit.record) env disk with
    | (.ok _, env) => (.ok (), env)
    | (.error e, env) => (.error (.archive e), env)

/-- Reads on to the next item. -/
def advance {β : Type} (disk : Disk β) (task : Task) (cursor : Cursor) (env : Env β) :
    Option (Except BackendError Item × Option Cursor) × Env β :=
  match cursor.reading.lines env.files with
  | .error f => (some (.error (.io f.message), none), env)
  | .ok lines =>
    match next? task cursor.number lines with
    | none => (none, env)
    | some (.error e) => (some (.error e, none), env)
    | some (.ok hit) =>
      -- An item is given out only once its record is archived.
      match keep disk task hit env with
      | (.error e, env) => (some (.error e, none), env)
      | (.ok (), env) =>
        (some (.ok hit.item, some ⟨cursor.reading.upTo lines hit.rest, hit.number + 1⟩), env)

/-- Fetches the items of the file that the arguments name. -/
def fetch {β : Type} (category : String) (args : Fields) (archive : Option Archive)
    (env : Env β) (disk : Disk β := .sound) : Except BackendError (Items β) := do
  checkCategory recordsName [recordCategory] category
  let origin ← requiredPath args
  let filters ← Filters.ofArgs args
  match env.files.locate ⟨origin⟩ with
  | .error f => throw (.io ("Failed to open " ++ origin ++ ": " ++ f.message))
  | .ok place =>
    let task : Task := ⟨origin, category, filters, archive⟩
    return Feed.unfold (advance disk task) (env.files.lineBound place) ⟨⟨place, 0⟩, 0⟩

/-! ## From an archive -/

/-- What an archived response gives: nothing if it is not asked for. A response of another
    origin is not looked at. -/
def replayed (origin : Option String) (filters : Filters) :
    Except ArchiveError Response → Option (Except BackendError Item)
  | .error e => some (.error (.archive e))
  | .ok r =>
    if origin.any (· ≠ r.origin) then none
    else
      match r.payload.get? "line" >>= Json.asInt64? with
      | none => some (.error (.parse "archived response has no line"))
      | some line =>
        -- The line is looked at first, so that the record of one passed over may be anything.
        if filters.skipsLine line then none
        else
          -- The line is what the archive says, and there may be no number behind it.
          let next := Number.wrapSigned64 (line + 1)
          match Record.toItem r.origin r.category line next
            ((r.payload.get? "record").getD .null) with
          | .error e => some (.error e)
          | .ok item => if filters.skipsItem item then none else some (.ok item)

/-- Makes the items anew that an archive keeps, those of one origin if the arguments name a
    path. -/
def replay {β : Type} (category : String) (args : Fields) (archive : Archive)
    (after : Option Calendar.Instant) (env : Env β) : Except BackendError (Items β) := do
  checkCategory recordsName [recordCategory] category
  let filters ← Filters.ofArgs args
  -- There may be no path, but not a wrong one.
  let origin ← match args.get? pathArgument with
    | none => pure none
    | some _ => do
      let path ← requiredPath args
      pure (some path)
  match archive.responses category after env.files with
  | .error e => throw (.archive e)
  | .ok responses => return responses.filterMap (replayed origin filters)

/-- The backend, on a disk to which it archives. -/
def backend {β : Type} (disk : Disk β := .sound) : Backend β where
  name := recordsName
  categories := [recordCategory]
  archiving := true
  resuming := true
  fetch category args archive env := (fetch category args archive env disk, env)
  replay category args archive after env := (replay category args archive after env, env)

end Harvest.Lines

namespace Harvest.Registry

/-- The backends that are always there. -/
def builtin {β : Type} : Registry β := empty.register Lines.backend

end Harvest.Registry
