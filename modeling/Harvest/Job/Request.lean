/-
  Harvest.Job.Request

  Requests for jobs: what to fetch, how often to try, and where the items go.
-/
import Harvest.Job.ArchiveArgs

namespace Harvest

/-- The number of failed runs that cancels a job, if a request does not tell. -/
def defaultMaxRetries : Nat := 5

/-- The queue that items go to, if a request does not tell. -/
def defaultQueue : String := "items"

/-- A request for a job. -/
structure Request where
  /-- The identifier of the job, which is made up if it is missing. -/
  jobId : Option String
  taskId : String
  backend : String
  category : String
  args : Fields
  archive : Option ArchiveArgs
  /-- The number of failed runs that cancels the job. -/
  maxRetries : Nat
  queue : String

/-- What a request lacks. -/
inductive RequestFault where
  | emptyTask
  | emptyCategory
  | emptyQueue
  deriving DecidableEq, Repr

/-- The words for a fault. -/
def RequestFault.message : RequestFault → String
  | .emptyTask => "Task id cannot be empty"
  | .emptyCategory => "Category cannot be empty"
  | .emptyQueue => "Queue cannot be empty"

namespace Request

/-- A request that leaves to the defaults what it can. -/
def make (taskId backend category : String) : Request where
  jobId := none
  taskId := taskId
  backend := backend
  category := category
  args := []
  archive := none
  maxRetries := defaultMaxRetries
  queue := defaultQueue

/-- Refuses a request without task, category or queue. Whether there is a backend of the
    name is another question. -/
def validate (r : Request) : Except RequestFault Unit :=
  if r.taskId = "" then .error .emptyTask
  else if r.category = "" then .error .emptyCategory
  else if r.queue = "" then .error .emptyQueue
  else .ok ()

/-- The request as a JSON value. -/
def toJson (r : Request) : Json :=
  .object [("job_id", .ofOption .string r.jobId), ("task_id", .string r.taskId),
    ("backend", .string r.backend), ("category", .string r.category),
    ("backend_args", .object r.args),
    ("archive_args", .ofOption ArchiveArgs.toJson r.archive),
    ("sched_args", .object [("max_retries", .ofNat r.maxRetries)]),
    ("queue", .string r.queue)]

/-- The fields of the arguments of the scheduler in a document. -/
def schedulerLayout :=
  Json.Layout.field "max_retries" Json.Shape.unsigned32 (.fallback defaultMaxRetries) .done

/-- The shape of the arguments of the scheduler: the number of failed runs that cancels. -/
def schedulerShape : Json.Shape Nat :=
  (Json.Shape.record "SchedulerArgs" schedulerLayout).map Prod.fst

/-- The fields of a request in a document. -/
def layout := Json.Layout.field "job_id" Json.Shape.text.nullable (.fallback none) <|
  .field "task_id" Json.Shape.text .refused <|
  .field "backend" Json.Shape.text .refused <|
  .field "category" Json.Shape.text .refused <|
  .field "backend_args" Json.Shape.fields (.fallback []) <|
  .field "archive_args" ArchiveArgs.shape.nullable (.fallback none) <|
  .field "sched_args" schedulerShape (.fallback defaultMaxRetries) <|
  .field "queue" Json.Shape.text (.fallback defaultQueue) .done

/-- The shape of a request in a document. -/
def shape : Json.Shape Request :=
  (Json.Shape.record "JobRequest" layout).map
    fun (jobId, taskId, backend, category, args, archive, maxRetries, queue, ()) =>
      ⟨jobId, taskId, backend, category, args, archive, maxRetries, queue⟩

end Request
end Harvest
