/-
  Harvest.Command.Execution

  Carrying out a command: the request for a job is put together and executed, or the
  backends are listed. What a command prints ends with a newline.
-/
import Harvest.Backend.Lines
import Harvest.Command.Line
import Harvest.Job.Execution
import Harvest.Queue.Lines

namespace Harvest

/-- Why a command failed. -/
inductive CommandError where
  | failed (f : Failure)
  | queue (e : QueueError)
  | invalid (words : String)
  | configuration (words : String)

/-- The words for an error. -/
def CommandError.message : CommandError → String
  | .failed f => "job failed: " ++ f.message
  | .queue e => "queue error: " ++ e.message
  | .invalid words => "invalid argument: " ++ words
  | .configuration words => "configuration error: " ++ words

namespace Command

/-! ## The request -/

/-- Reads the request that is described in a file. -/
def readRequest (files : FileTree) (path : Path) : Except CommandError Request :=
  match files.readText path with
  | .error f =>
    .error (.configuration ("Failed to read job file " ++ path.text ++ ": " ++ f.message))
  | .ok text =>
    match Request.shape.ofChars text with
    | .error r =>
      .error (.configuration ("Invalid job file " ++ path.text ++ ": " ++ r.message))
    | .ok request => .ok request

/-- The request to begin with. -/
def Base.request (files : FileTree) : Base → Except CommandError Request
  | .file path => readRequest files path
  | .named task backend category => .ok (.make task backend category)

/-- The request with what the command names besides. -/
def Run.override (r : Run) (request : Request) : Request :=
  { request with
    jobId := r.jobId.or request.jobId
    -- Of two arguments of one name the later one counts.
    args := request.args.insertAll r.args
    -- The archive is taken over as a whole, never field by field.
    archive := r.archive.or request.archive
    maxRetries := r.maxRetries.getD request.maxRetries
    queue := r.queue.getD request.queue }

/-- The request that a command describes. -/
def Run.request (r : Run) (files : FileTree) : Except CommandError Request := do
  let base ← r.base.request files
  let request := r.override base
  request.validate.mapError fun f => .invalid f.message
  return request

/-- The paths that executing the request of a command may look at. -/
def Run.paths (r : Run) (request : Request) : List Path :=
  let source := (requiredPath request.args).toOption.map Path.mk
  let archive := request.archive.map fun a =>
    [⟨a.path⟩, Archive.categoryPath ⟨⟨a.path⟩⟩ request.category]
  source.toList ++ archive.getD [] ++ [Queue.linesPath r.queueDir request.queue]

/-! ## What is printed -/

/-- The outcome of a job in one line. -/
def outcomeLine (result : Except Failure Checkpoint) : String :=
  let (success, error, checkpoint) : Bool × Option String × Option Checkpoint :=
    match result with
    | .ok c => (true, none, some c)
    | .error f => (false, some f.message, f.checkpoint)
  let report := Json.object [("checkpoint", .ofOption Checkpoint.toJson checkpoint),
    ("error", .ofOption .string error), ("success", .bool success)]
  report.sorted.text ++ "\n"

/-- The line of a backend in a list for people. -/
def backendLine {β : Type} (b : Backend β) : String :=
  b.name ++ " | categories=" ++ String.intercalate "," b.categories
    ++ " | archiving=" ++ toString b.archiving ++ " | resuming=" ++ toString b.resuming ++ "\n"

/-- The list of the backends of a registry. -/
def listing {β : Type} (registry : Registry β) : Format → String
  | .json => Json.pretty (.array registry.describe) ++ "\n"
  | .human =>
    "Found " ++ toString registry.backends.length ++ " backends:\n\n"
      ++ String.join (registry.backends.map backendLine)

/-! ## Execution -/

/-- What a command has come to: what it prints, the error it failed with if it failed, what
    was told and counted on the way, and what backends work in. -/
structure Outcome (β : Type) where
  output : String
  error : Option CommandError
  notices : List Notice
  samples : List Sample
  env : Env β

/-- Nothing but an output. -/
def Outcome.printing {β : Type} (output : String) (env : Env β) : Outcome β :=
  ⟨output, none, [], [], env⟩

/-- Nothing but an error. -/
def Outcome.failing {β : Type} (e : CommandError) (env : Env β) : Outcome β :=
  ⟨"", some e, [], [], env⟩

/-- Executes the request of a command. The job has the identifier `fresh` if the request
    names none. -/
def Run.executeRequest {β : Type} (r : Run) (request : Request) (fresh : String)
    (env : Env β) : Outcome β :=
  let starting : Notice := .starting request.taskId request.backend request.category
    (Queue.linesPath r.queueDir request.queue).text
  let e := request.execute Registry.builtin (Queue.lines r.queueDir) fresh ⟨env, ()⟩
  { output := outcomeLine e.result
    error := match e.result with
      | .ok _ => none
      | .error f => some (.failed f)
    notices := starting :: e.notices
    samples := e.samples
    env := e.world.env }

/-- Carries out a command that runs a job. -/
def Run.execute {β : Type} (r : Run) (fresh : String) (env : Env β) : Outcome β :=
  match r.request env.files with
  | .error e => .failing e env
  | .ok request => r.executeRequest request fresh env

/-- Carries out a command. -/
def execute {β : Type} (fresh : String) (env : Env β) : Command → Outcome β
  | .run r => r.execute fresh env
  | .backends format => .printing (listing (Registry.builtin (β := β)) format) env

/-! ## Exit codes -/

/-- The exit code of a command that was carried out. -/
def Outcome.code {β : Type} (o : Outcome β) : Nat := if o.error.isSome then 1 else 0

/-- The exit code of a command line that is not carried out. -/
def Usage.code (u : Usage) : Nat := if u.isAnswer then 0 else 2

/-- What is printed for a command line that is not carried out, which is nothing if it is
    refused. -/
def Usage.output (synopsis : String) : Usage → String
  | .help => synopsis
  | .version => "collector-jobs " ++ Item.version ++ "\n"
  | _ => ""

end Command
end Harvest
