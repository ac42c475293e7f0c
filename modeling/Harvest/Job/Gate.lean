/-
  Harvest.Job.Gate

  The open archive of a job. It is always the archive that was last asked for, and it is
  opened anew only when a different one is asked for.
-/
import Harvest.Job.ArchiveArgs
import Harvest.Job.Error

namespace Harvest

/-- The archive that a job has open, if any. -/
structure Gate where
  archive : Option Archive
  deriving DecidableEq

namespace Gate

/-- No archive is open. -/
def shut : Gate := ⟨none⟩

/-- Opens the archive that is asked for, unless it is the one that is open. -/
def ensure (g : Gate) (files : FileTree) : Option ArchiveArgs → Except JobError Gate
  | none => .ok g
  | some args =>
    -- Two spellings of one path are one archive.
    if g.archive.any fun a => a.path.same ⟨args.path⟩ then .ok g
    else
      match Archive.openAt files ⟨args.path⟩ with
      | .ok a => .ok ⟨some a⟩
      | .error e => .error (.archive e)

/-- Opens the archive that is asked for. -/
def openFor (files : FileTree) (args : Option ArchiveArgs) : Except JobError Gate :=
  shut.ensure files args

/-- Opens the items of a run on the route that is asked for. -/
def items {β : Type} (g : Gate) (backend : Backend β) (category : String) (args : Fields)
    (archive : Option ArchiveArgs) (env : Env β) : Except JobError (Items β) × Env β :=
  match Route.select archive with
  | .live =>
    let (opened, env) := backend.fetch category args g.archive env
    (opened.mapError .backend, env)
  | .replay after =>
    match g.archive with
    | none => (.error (.configuration "archive replay requested without archive"), env)
    | some a =>
      let (opened, env) := backend.replay category args a after env
      (opened.mapError .backend, env)

end Gate

/-- Refuses the use of an archive with a backend that has no use for one. -/
def validateArchiving {β : Type} (backend : Backend β) (archive : Option ArchiveArgs) :
    Except JobError Unit :=
  if archive.isSome && !backend.archiving then
    .error (.configuration
      ("archive attributes set but archive is not supported by backend " ++ backend.name))
  else .ok ()

end Harvest
