/-
  Harvest.Job.Notice

  What is told about a job while it is executed: notices for a log, and samples that are
  counted.
-/
import Harvest.Json.Text

namespace Harvest

/-- How grave a notice is. -/
inductive Level where
  | info
  | warn
  | error
  deriving DecidableEq, Repr

/-- The word for a level. -/
def Level.word : Level → String
  | .info => "INFO"
  | .warn => "WARN"
  | .error => "ERROR"

/-- Something told about a job. -/
inductive Notice where
  | starting (task backend category queuePath : String)
  | refused (job task backend error : String)
  | resuming (job task backend : String) (failures maxRetries : Nat)
  | cancelled (job task backend : String) (failures : Nat) (error : String)
  | completed (job task backend category : String) (items resumes : Nat)
  deriving DecidableEq, Repr

namespace Notice

/-- How grave a notice is. -/
def level : Notice → Level
  | .starting .. => .info
  | .refused .. => .error
  | .resuming .. => .warn
  | .cancelled .. => .error
  | .completed .. => .info

/-- The words of a notice. -/
def message : Notice → String
  | .starting .. => "Starting job"
  | .refused .. => "Unable to create job"
  | .resuming .. => "Resuming job due to a failure"
  | .cancelled .. => "Cancelling job"
  | .completed .. => "Job completed"

/-- What a notice tells. -/
def fields : Notice → List (String × Json)
  | .starting task backend category queuePath =>
    [("task_id", .string task), ("backend", .string backend), ("category", .string category),
      ("queue", .string queuePath)]
  | .refused job task backend error =>
    [("job_id", .string job), ("task_id", .string task), ("backend", .string backend),
      ("error", .string error)]
  | .resuming job task backend failures maxRetries =>
    [("job_id", .string job), ("task_id", .string task), ("backend", .string backend),
      ("failures", .ofNat failures), ("max_retries", .ofNat maxRetries)]
  | .cancelled job task backend failures error =>
    [("job_id", .string job), ("task_id", .string task), ("backend", .string backend),
      ("failures", .ofNat failures), ("error", .string error)]
  | .completed job task backend category items resumes =>
    [("job_id", .string job), ("task_id", .string task), ("backend", .string backend),
      ("category", .string category), ("nitems", .ofNat items), ("nresumed", .ofNat resumes)]

/-- The notice as a JSON value. -/
def toJson (n : Notice) : Json :=
  Json.ofFields (n.fields ++ [("message", .string n.message), ("level", .string n.level.word)])

/-- What a field of a notice shows to people: a text as it is. -/
def shown : Json → String
  | .string s => s
  | v => v.text

/-- The notice in one line for people. -/
def line (n : Notice) : String :=
  n.level.word ++ " " ++ n.message
    ++ String.join (n.fields.map fun (name, value) => " " ++ name ++ "=" ++ shown value)

end Notice

/-- Something that is counted. -/
inductive Sample where
  | itemForwarded (backend category : String)
  | jobResumed (backend category : String)
  | jobCompleted (backend category : String)
  | jobFailed (backend category : String)
  /-- A job has taken its time, whether it was completed or failed. -/
  | jobTimed (completed : Bool)
  deriving DecidableEq, Repr

namespace Sample

/-- The characters of a label: a newline, a quote and a backslash are escaped. A backslash is
    held back until the next character tells whether it escapes that one already, which
    then is not escaped again. -/
def labelChars : (held : Bool) → List Char → List Char
  | held, [] => if held then ['\\', '\\'] else []
  | held, c :: cs =>
    if c = '\n' then '\\' :: 'n' :: labelChars held cs
    else if c = '"' then '\\' :: '"' :: labelChars false cs
    else if c = '\\' then
      if held then '\\' :: '\\' :: labelChars false cs else labelChars true cs
    else if held then '\\' :: '\\' :: c :: labelChars false cs
    else c :: labelChars false cs

/-- A label with its value. -/
def label (name value : String) : String :=
  name ++ "=\"" ++ String.ofList (labelChars false value.toList) ++ "\""

example : labelChars false ['a', '\\', 'b', '"', '\\'] =
    ['a', '\\', '\\', 'b', '\\', '"', '\\', '\\'] := by decide

/-- The labels of a backend and a category. -/
def labels (backend category : String) : String :=
  "\x7b" ++ label "backend" backend ++ "," ++ label "category" category ++ "\x7d"

/-- The name of what is counted, with its labels. -/
def name : Sample → String
  | .itemForwarded backend category => "items_forwarded_total" ++ labels backend category
  | .jobResumed backend category => "job_resumes_total" ++ labels backend category
  | .jobCompleted backend category => "jobs_completed_total" ++ labels backend category
  | .jobFailed backend category => "jobs_failed_total" ++ labels backend category
  | .jobTimed completed =>
    "job_duration_seconds_count\x7b" ++ label "outcome" (if completed then "success" else "failure")
      ++ "\x7d"

/-- The line of a sample that is counted so many times. -/
def line (s : Sample) (count : Nat) : String := s.name ++ " " ++ toString count

/-- The lines of several samples, each of which is counted, in order of their text. -/
def report (samples : List Sample) : List String :=
  (samples.eraseDups.map fun s => s.line (samples.count s)).mergeSort fun a b => decide (a ≤ b)

end Sample
end Harvest
