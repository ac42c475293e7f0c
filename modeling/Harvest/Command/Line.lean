/-
  Harvest.Command.Line

  The command line. There are two commands: one runs a job, which is described by a file or
  by flags, and the other lists the backends.
-/
import Harvest.Command.Flag
import Harvest.Job.Request

namespace Harvest

/-- How the backends are listed. -/
inductive Command.Format where
  | human
  | json
  deriving DecidableEq, Repr

/-- What describes the request for a job to begin with. -/
inductive Command.Base where
  | file (path : Path)
  | named (task backend category : String)
  deriving DecidableEq, Repr

/-- The command that runs a job. What it names besides a file goes before what is in the
    file. -/
structure Command.Run where
  base : Base
  jobId : Option String
  args : List (String × Json)
  archive : Option ArchiveArgs
  maxRetries : Option Nat
  queueDir : Path
  queue : Option String
  /-- The address at which the samples can be asked for. -/
  metrics : Option Address

/-- A command. -/
inductive Command where
  | run (r : Command.Run)
  | backends (format : Command.Format)

namespace Command

/-- The commands by name, with the one that gives help. -/
def names : List String := ["run", "backends", "help"]

/-! ## Running a job -/

/-- The directory of the queues, if none is given. -/
def defaultQueueDir : Path := ⟨"queues"⟩

/-- The flags of the command that runs a job, as they are given. -/
structure RunFlags where
  jobFile : Option Path
  backend : Option String
  category : Option String
  taskId : Option String
  jobId : Option String
  args : List (String × Json)
  archivePath : Option String
  replays : Bool
  after : Option Calendar.Instant
  maxRetries : Option Nat
  queueDir : Path
  queue : Option String
  metrics : Option Address

namespace RunFlags

/-- No flag is given. -/
def none : RunFlags where
  jobFile := .none
  backend := .none
  category := .none
  taskId := .none
  jobId := .none
  args := []
  archivePath := .none
  replays := false
  after := .none
  maxRetries := .none
  queueDir := defaultQueueDir
  queue := .none
  metrics := .none

/-- A flag whose value is a text. -/
def textFlag (name : String) (set : String → RunFlags → RunFlags) : Flag RunFlags :=
  ⟨name, false, .take fun text f => .ok (set text f)⟩

/-- A flag whose value is read from a text. -/
def readFlag {α : Type} (name : String) (read : String → Except Usage α)
    (set : α → RunFlags → RunFlags) : Flag RunFlags :=
  ⟨name, false, .take fun text f => (read text).map fun a => set a f⟩

/-- The flag of a named argument, which may be given again and again. -/
def argumentFlag : Flag RunFlags where
  name := "arg"
  repeats := true
  effect := .take fun text f =>
    match readArgument text with
    | .ok entry => .ok { f with args := f.args ++ [entry] }
    | .error fault => .error (.unreadable fault.message)

/-- The flags of the command that runs a job. -/
def all : List (Flag RunFlags) := [
  readFlag "job-file" readPath fun path f => { f with jobFile := some path },
  textFlag "backend" fun text f => { f with backend := some text },
  textFlag "category" fun text f => { f with category := some text },
  textFlag "task-id" fun text f => { f with taskId := some text },
  textFlag "job-id" fun text f => { f with jobId := some text },
  argumentFlag,
  textFlag "archive-path" fun text f => { f with archivePath := some text },
  ⟨"fetch-from-archive", false, .mark fun f => { f with replays := true }⟩,
  readFlag "archived-after" readDate fun t f => { f with after := some t },
  readFlag "max-retries" readRetries fun n f => { f with maxRetries := some n },
  readFlag "queue-dir" readPath fun path f => { f with queueDir := path },
  textFlag "queue" fun text f => { f with queue := some text },
  readFlag "metrics-addr" readAddress fun a f => { f with metrics := some a }]

/-- The archive that the flags describe. -/
def archive (f : RunFlags) : Option ArchiveArgs :=
  f.archivePath.map fun path => if f.replays then .replay path f.after else .store path

/-- Whether a flag describes a job without a file. -/
def describesJob (f : RunFlags) : Bool :=
  f.backend.isSome || f.category.isSome || f.taskId.isSome

/-- What describes the request to begin with: a file, or else a task, a backend and a
    category. -/
def base (f : RunFlags) : Except Usage Base :=
  match f.jobFile, f.taskId, f.backend, f.category with
  | some path, _, _, _ => .ok (.file path)
  | .none, some task, some backend, some category => .ok (.named task backend category)
  | _, _, _, _ => .error .missingArgument

/-- Whether a flag is given without the one that it needs. -/
def lacksOther (f : RunFlags) : Bool :=
  (f.replays && f.archivePath.isNone) || (f.after.isSome && !f.replays)

/-- The command of the flags, which must go together. -/
def command (f : RunFlags) : Except Usage Run := do
  -- That flags exclude each other is told before what is missing.
  if f.jobFile.isSome && f.describesJob then throw .conflict
  let base ← f.base
  -- A replay lacks its archive, or an instant the replay that it is for.
  if f.lacksOther then throw .missingArgument
  return ⟨base, f.jobId, f.args, f.archive, f.maxRetries, f.queueDir, f.queue, f.metrics⟩

end RunFlags

/-- Reads the arguments of the command that runs a job. -/
def Run.ofArguments (args : List String) : Except Usage Run := do
  let flags ← readFlags RunFlags.all RunFlags.none args
  flags.command

/-! ## Listing the backends -/

/-- Reads the way in which backends are listed. -/
def readFormat (text : String) : Except Usage Format :=
  if text = "human" then .ok .human
  else if text = "json" then .ok .json
  else .error .invalidValue

/-- The flag of the command that lists the backends. -/
def formatFlag : Flag Format := ⟨"format", false, .take fun text _ => readFormat text⟩

/-! ## The whole line -/

/-- Answers a request for help with some commands, of which there are none below others. -/
def helpWith : List String → Usage
  | [] => .help
  | [name] => if names.contains name then .help else .unknownCommand
  | _ => .unknownCommand

/-- Reads an argument where a command has to be. -/
def readName (args : List String) : Token → Except Usage Command
  | .plain "run" => (Run.ofArguments args).map .run
  | .plain "backends" => (readFlags [formatFlag] .human args).map .backends
  | .plain "help" => .error (helpWith args)
  | .plain _ => .error .unknownCommand
  | .dashes =>
    match args with
    | [] => .error .noCommand
    | name :: _ => .error (if names.contains name then .unknownArgument else .unknownCommand)
  | .short 'h' => .error .help
  | .short 'V' => .error .version
  | .short _ => .error .unknownArgument
  | .long name value =>
    if name = "help" ∨ name = "version" then
      if value.isSome then .error .needlessValue
      else .error (if name = "help" then .help else .version)
    else .error .unknownArgument

/-- Reads a command line, without the name of the program. -/
def ofArguments : List String → Except Usage Command
  | [] => .error .noCommand
  | arg :: args => readName args (.ofArgument arg)

end Command
end Harvest
