/-
  Harvest.Job.Checkpoint

  How far a job has come: which items it has passed on, as far as that is needed to go on
  from there. The greatest time of update only grows, and the offset is that of the last
  item that has one.
-/
import Harvest.Backend.Filters

namespace Harvest

/-- The instant that lies a number of seconds after 1970-01-01T00:00:00Z, to the nearest
    millisecond, if there is one. -/
def Calendar.Instant.ofSeconds? (seconds : Float) : Option Calendar.Instant :=
  if seconds.isFinite then ofMillis? (Number.roundToInt64 (seconds * 1000)) else none

/-- How far a job has come. -/
structure Checkpoint where
  jobId : String
  taskId : String
  backend : String
  category : String
  /-- The identifier of the last item. -/
  lastUuid : Option String
  /-- The greatest time of update, in seconds since 1970-01-01T00:00:00Z. -/
  maxDate : Option Float
  /-- The number of items. -/
  items : Nat
  offset : Option Int
  /-- The number of runs that went on from an earlier one. -/
  resumes : Nat

namespace Checkpoint

/-- Nothing is done yet. -/
def start (jobId taskId backend category : String) : Checkpoint :=
  ⟨jobId, taskId, backend, category, none, none, 0, none, 0⟩

/-- Takes back all that was done. -/
def reset (c : Checkpoint) : Checkpoint := start c.jobId c.taskId c.backend c.category

/-- Counts a run that goes on from an earlier one. -/
def markResumed (c : Checkpoint) : Checkpoint :=
  { c with resumes := Number.wrap Number.greatestUnsigned32 (c.resumes + 1) }

/-- The greater of a time and the greatest time so far. -/
def laterDate (maxDate : Option Float) (updated : Float) : Option Float :=
  match maxDate with
  | none => some updated
  | some greatest => if greatest < updated then some updated else some greatest

/-- Takes account of an item that was passed on. -/
def record (c : Checkpoint) (uuid : String) (updated : Float) (offset : Option Int) :
    Checkpoint :=
  { c with
    items := Number.wrap Number.greatestUnsigned64 (c.items + 1)
    lastUuid := some uuid
    maxDate := laterDate c.maxDate updated
    -- An item without offset leaves that of an earlier one.
    offset := offset.or c.offset }

/-- The instant to go on from. -/
def fromDate (c : Checkpoint) : Option Calendar.Instant :=
  c.maxDate >>= Calendar.Instant.ofSeconds?

/-- The arguments of a fetch that goes on from here. -/
def resumeArgs (c : Checkpoint) (args : Fields) : Fields :=
  let args :=
    match c.fromDate with
    | some t => args.insert dateArgument (.string t.millisText)
    | none => args
  match c.offset with
  | some n => args.insert offsetArgument (.ofInt n)
  | none => args

/-- The checkpoint as a JSON value. -/
def toJson (c : Checkpoint) : Json :=
  .object [("job_id", .string c.jobId), ("task_id", .string c.taskId),
    ("backend", .string c.backend), ("category", .string c.category),
    ("last_uuid", .ofOption .string c.lastUuid), ("max_date", .ofOption .ofFloat c.maxDate),
    ("nitems", .ofNat c.items), ("offset", .ofOption .ofInt c.offset),
    ("nresumed", .ofNat c.resumes)]

/-- The fields of a checkpoint in a document. -/
def layout := Json.Layout.field "job_id" Json.Shape.text .refused <|
  .field "task_id" Json.Shape.text .refused <|
  .field "backend" Json.Shape.text .refused <|
  .field "category" Json.Shape.text .refused <|
  .field "last_uuid" Json.Shape.text.nullable (.optional none) <|
  .field "max_date" Json.Shape.real.nullable (.optional none) <|
  .field "nitems" Json.Shape.unsigned64 .refused <|
  .field "offset" Json.Shape.signed64.nullable (.optional none) <|
  .field "nresumed" Json.Shape.unsigned32 .refused .done

/-- The shape of a checkpoint in a document. -/
def shape : Json.Shape Checkpoint :=
  (Json.Shape.record "JobCheckpoint" layout).map
    fun (jobId, taskId, backend, category, lastUuid, maxDate, items, offset, resumes, ()) =>
      ⟨jobId, taskId, backend, category, lastUuid, maxDate, items, offset, resumes⟩

/-- How a number is shown to someone who inspects it. -/
def inspectStyle : Number.Style := ⟨-4, 15, false⟩

/-- A number as it is shown to someone who inspects it. -/
def inspectFloat (x : Float) : String :=
  match Number.floatText? inspectStyle x with
  | some cs => String.ofList cs
  | none => if x.isNaN then "NaN" else if x < 0 then "-inf" else "inf"

/-- An optional text as it is shown to someone who inspects it. -/
def inspectOption : Option String → String
  | none => "None"
  | some s => "Some(" ++ s ++ ")"

/-- A text that shows the checkpoint. -/
def inspect (c : Checkpoint) : String :=
  "JobCheckpoint \x7b job_id: " ++ Text.quoted c.jobId ++ ", task_id: " ++ Text.quoted c.taskId
    ++ ", backend: " ++ Text.quoted c.backend ++ ", category: " ++ Text.quoted c.category
    ++ ", last_uuid: " ++ inspectOption (c.lastUuid.map Text.quoted)
    ++ ", max_date: " ++ inspectOption (c.maxDate.map inspectFloat)
    ++ ", nitems: " ++ toString c.items
    ++ ", offset: " ++ inspectOption (c.offset.map toString)
    ++ ", nresumed: " ++ toString c.resumes ++ " \x7d"

@[simp] theorem reset_reset (c : Checkpoint) : c.reset.reset = c.reset := rfl

@[simp] theorem reset_record (c : Checkpoint) (uuid : String) (updated : Float)
    (offset : Option Int) : (c.record uuid updated offset).reset = c.reset := rfl

@[simp] theorem resumes_record (c : Checkpoint) (uuid : String) (updated : Float)
    (offset : Option Int) : (c.record uuid updated offset).resumes = c.resumes := rfl

@[simp] theorem reset_markResumed (c : Checkpoint) : c.markResumed.reset = c.reset := rfl

end Checkpoint
end Harvest
