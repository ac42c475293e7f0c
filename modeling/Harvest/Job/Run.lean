/-
  Harvest.Job.Run

  One run of a job: the items of its backend are tagged, pushed to its queue one by one,
  and each is recorded in the checkpoint as soon as the queue has it. The first error ends
  the run, and the checkpoint then tells what the queue has.
-/
import Harvest.Backend.Registry
import Harvest.Job.Checkpoint
import Harvest.Job.Gate
import Harvest.Job.Request

namespace Harvest

/-- A job that is set up. -/
structure Job (β κ : Type) where
  jobId : String
  taskId : String
  category : String
  backend : Backend β
  queue : Queue κ
  queueName : String
  gate : Gate
  checkpoint : Checkpoint

/-- Tags the items of a stream with the version of the collector and a job. -/
def Items.tagged {β : Type} (items : Items β) (job : String) : Items β :=
  items.map fun result => result.map fun item => item.tagged job

/-- What a job has to know of an item. -/
structure Marks where
  uuid : String
  updated : Float
  offset : Option Int

/-- What a job has to know of an item, if the item has it. -/
def Item.marks (i : Item) : Except JobError Marks :=
  match i.uuid? with
  | none => .error (.invalidItem "item has no uuid")
  | some uuid =>
    match i.updated?.filter Float.isFinite with
    | none => .error (.invalidItem ("item " ++ uuid ++ " has no valid updated_on"))
    | some updated => .ok ⟨uuid, updated, i.offset?⟩

/-- Where items are passed on to. -/
structure Outlet (κ : Type) where
  queue : Queue κ
  name : String

/-- What the items of a stream have come to: the end or the first error, the checkpoint,
    the items that the queue took in order, and the world. -/
structure Passage (β κ : Type) where
  result : Except JobError Unit
  checkpoint : Checkpoint
  items : List Item
  world : World β κ

/-- Adds an item in front of those that the queue took. -/
def Passage.cons {β κ : Type} (item : Item) (p : Passage β κ) : Passage β κ :=
  { p with items := item :: p.items }

/-- Passes on an item: pushes it to the queue and records it. -/
def Outlet.forward {κ : Type} (outlet : Outlet κ) (item : Item) (checkpoint : Checkpoint)
    (store : Store κ) : Except JobError Checkpoint × Store κ :=
  match item.marks with
  | .error e => (.error e, store)
  | .ok m =>
    -- An item is recorded only once the queue has it.
    match outlet.queue.push outlet.name item.bytes store with
    | (.error e, store) => (.error (.queue e), store)
    | (.ok (), store) => (.ok (checkpoint.record m.uuid m.updated m.offset), store)

/-- Passes on the items of a stream up to the first error. -/
def Outlet.forwardAll {β κ : Type} (outlet : Outlet κ) :
    Draw (Env β) (Except BackendError Item) → Checkpoint → κ → Passage β κ
  | .stop env, checkpoint, own => ⟨.ok (), checkpoint, [], ⟨env, own⟩⟩
  | .item (.error e) env _, checkpoint, own => ⟨.error (.backend e), checkpoint, [], ⟨env, own⟩⟩
  -- The rest of the stream is drawn only after the push, and sees what it did to the files.
  | .item (.ok item) env rest, checkpoint, own =>
    match outlet.forward item checkpoint ⟨env.files, own⟩ with
    | (.error e, store) =>
      ⟨.error e, checkpoint, [], ⟨{ env with files := store.files }, store.own⟩⟩
    | (.ok checkpoint, store) =>
      (outlet.forwardAll (rest { env with files := store.files }) checkpoint store.own).cons item

/-- What a run has come to: the end or the first error, the job after it, the items that
    the queue took in order, and the world. -/
structure Run (β κ : Type) where
  result : Except JobError Unit
  job : Job β κ
  items : List Item
  world : World β κ

namespace Job

variable {β κ : Type}

/-- Sets up a job for a backend of a registry. -/
def create (registry : Registry β) (queue : Queue κ)
    (jobId taskId backendName category queueName : String) : Except JobError (Job β κ) :=
  match registry.find? backendName with
  | none => .error (.notFound backendName)
  | some backend =>
    .ok { jobId, taskId, category, backend, queue, queueName, gate := .shut
          checkpoint := .start jobId taskId backendName category }

/-- Opens the archive that is asked for. -/
def withArchive (j : Job β κ) (files : FileTree) (archive : Option ArchiveArgs) :
    Except JobError (Job β κ) := do
  let gate ← Gate.openFor files archive
  return { j with gate }

/-- The queue of the job. -/
def outlet (j : Job β κ) : Outlet κ := ⟨j.queue, j.queueName⟩

/-- The checkpoint from which a run starts. -/
def startPoint (j : Job β κ) (resume : Bool) : Checkpoint :=
  if resume then j.checkpoint.markResumed else j.checkpoint.reset

/-- The arguments of the fetch of a run: those of the caller, or if the run goes on from an
    earlier one those to go on with. -/
def runArgs (j : Job β κ) (args : Fields) (resume : Bool) : Fields :=
  if resume then j.checkpoint.markResumed.resumeArgs args else args

/-- Runs the job once, from the start or going on from its checkpoint. A run that cannot
    open its archive leaves the job as it was. -/
def run (j : Job β κ) (args : Fields) (archive : Option ArchiveArgs) (resume : Bool)
    (world : World β κ) : Run β κ :=
  match j.gate.ensure world.env.files archive with
  | .error e => ⟨.error e, j, [], world⟩
  | .ok gate =>
    -- From here on the checkpoint is that of this run.
    let start := j.startPoint resume
    match gate.items j.backend j.category (j.runArgs args resume) archive world.env with
    | (.error e, env) =>
      ⟨.error e, { j with gate, checkpoint := start }, [], { world with env }⟩
    | (.ok items, env) =>
      let p := j.outlet.forwardAll (items.tagged j.jobId env) start world.queue
      ⟨p.result, { j with gate, checkpoint := p.checkpoint }, p.items, p.world⟩

/-- A text that shows the job. -/
def inspect (j : Job β κ) : String :=
  "CollectorJob \x7b job_id: " ++ Text.quoted j.jobId ++ ", task_id: " ++ Text.quoted j.taskId
    ++ ", backend: " ++ Text.quoted j.backend.name ++ ", category: " ++ Text.quoted j.category
    ++ ", queue_name: " ++ Text.quoted j.queueName ++ ", result: " ++ j.checkpoint.inspect
    ++ " \x7d"

end Job
end Harvest
