/-
  Harvest.Proofs.Job.Admission

  Which requests are admitted. A request is checked for seven things before its backend is asked
  for anything (`Check`). It is refused because of the first that it lacks, with a fatal error
  and without a trace in the world (`execute_of_failsFirst`), and otherwise it is run
  (`asked_iff_admitted`).
-/
import Harvest.Proofs.Job.Attempts
import Harvest.Proofs.Job.Delivery

namespace Harvest

open Scripted (Call)

/-! ## Checks -/

/-- What a request is checked for before it is run. -/
inductive Check where
  | task
  | category
  | queue
  | backend
  | archivePath
  | archiveDirectory
  | archiving
  deriving DecidableEq

namespace Check

/-- The place of a check in the order in which they are made. -/
def place : Check → Nat
  | .task => 0
  | .category => 1
  | .queue => 2
  | .backend => 3
  | .archivePath => 4
  | .archiveDirectory => 5
  | .archiving => 6

/-- What it is to pass a check. -/
def Passes {β : Type} (r : Request) (registry : Registry β) (files : FileTree) : Check → Prop
  | .task => r.taskId ≠ ""
  | .category => r.category ≠ ""
  | .queue => r.queue ≠ ""
  | .backend => ∃ b, registry.find? r.backend = some b
  | .archivePath => ∀ a, r.archive = some a → a.path ≠ ""
  | .archiveDirectory => ∀ a, r.archive = some a → files.has ⟨a.path⟩ = true →
      files.isDirectory ⟨a.path⟩ = true
  | .archiving => ∀ a b, r.archive = some a → registry.find? r.backend = some b →
      b.archiving = true

/-- The error of a request that does not pass a check. -/
def error (r : Request) : Check → JobError
  | .task => .configuration "Task id cannot be empty"
  | .category => .configuration "Category cannot be empty"
  | .queue => .configuration "Queue cannot be empty"
  | .backend => .notFound r.backend
  | .archivePath => .archive .emptyPath
  | .archiveDirectory => .archive (.notADirectory ((r.archive.map ArchiveArgs.path).getD ""))
  | .archiving => .configuration
      ("archive attributes set but archive is not supported by backend " ++ r.backend)

/-- The checkpoint of a request that does not pass a check: only the last one is made of a job that
    is set up, at whose checkpoint nothing is done. -/
def checkpoint? (r : Request) (jobId : String) : Check → Option Checkpoint
  | .archiving => some (.start jobId r.taskId r.backend r.category)
  | _ => none

/-- What is told of a request that does not pass a check: a job that is set up by then tells
    nothing. -/
def notices (r : Request) (jobId : String) (c : Check) : List Notice :=
  if c = .archiving then [] else [.refused jobId r.taskId r.backend (c.error r).message]

/-- Another run could not end otherwise. -/
theorem isFatal_error (r : Request) (c : Check) : (c.error r).isFatal = true := by
  cases c <;> rfl

/-- Watching backends changes nothing that is checked. -/
theorem passes_watched {β : Type} (r : Request) (registry : Registry β) (files : FileTree)
    (c : Check) : c.Passes r registry.watched files ↔ c.Passes r registry files := by
  cases c with
  | task => exact Iff.rfl
  | category => exact Iff.rfl
  | queue => exact Iff.rfl
  | archivePath => exact Iff.rfl
  | archiveDirectory => exact Iff.rfl
  | backend =>
    unfold Passes
    rw [Registry.find?_watched]
    simp only [Option.map_eq_some_iff]
    constructor
    · rintro ⟨-, b, hb, -⟩
      exact ⟨b, hb⟩
    · rintro ⟨b, hb⟩
      exact ⟨_, b, hb, rfl⟩
  | archiving =>
    unfold Passes
    rw [Registry.find?_watched]
    simp only [Option.map_eq_some_iff]
    constructor
    · intro h a b ha hb
      exact h a b.watched ha ⟨b, hb, rfl⟩
    · rintro h a _ ha ⟨b, hb, rfl⟩
      exact h a b ha hb

end Check

namespace Request

variable {β κ : Type}

/-- A check is the first that a request does not pass. -/
structure FailsFirst (r : Request) (registry : Registry β) (files : FileTree) (c : Check) :
    Prop where
  earlier : ∀ b : Check, b.place < c.place → b.Passes r registry files
  fails : ¬ c.Passes r registry files

/-- A request that does not pass all checks has a first that it does not pass. -/
theorem exists_failsFirst {r : Request} {registry : Registry β} {files : FileTree} {c : Check}
    (h : ¬ c.Passes r registry files) : ∃ c, r.FailsFirst registry files c := by
  induction hplace : c.place using Nat.strongRecOn generalizing c with
  | ind place ih =>
    by_cases hearlier : ∀ b : Check, b.place < c.place → b.Passes r registry files
    · exact ⟨c, hearlier, h⟩
    · simp only [Classical.not_forall] at hearlier
      obtain ⟨b, hless, hfails⟩ := hearlier
      exact ih b.place (hplace ▸ hless) hfails rfl

/-- The end of a request that does not pass a check. It leaves the world as it is. -/
def refusal (r : Request) (fresh : String) (c : Check) (world : World β κ) : Execution β κ where
  result := .error ⟨c.error r, c.checkpoint? r (r.jobId.getD fresh)⟩
  notices := c.notices r (r.jobId.getD fresh)
  samples := r.failureSamples
  items := []
  world := world

end Request

/-! ## Opening the archive -/

namespace Archive

variable {files : FileTree} {path : Path}

/-- An archive is opened if its path is not empty and leads to nothing but a directory. -/
theorem openAt_of_directory (hpath : path.text ≠ "")
    (hdirectory : files.has path = true → files.isDirectory path = true) :
    openAt files path = .ok ⟨path⟩ := by
  unfold openAt
  rw [if_neg hpath, if_neg]
  intro hother
  rw [Bool.and_eq_true, Bool.not_eq_true'] at hother
  cases (hdirectory hother.1).symm.trans hother.2

theorem openAt_of_other (hpath : path.text ≠ "") (hhas : files.has path = true)
    (hdirectory : ¬ files.isDirectory path = true) :
    openAt files path = .error (.notADirectory path.text) := by
  unfold openAt
  rw [if_neg hpath, if_pos]
  rw [hhas, Bool.eq_false_iff.mpr hdirectory]
  rfl

end Archive

/-- A gate does not open for an archive that cannot be opened. -/
theorem Gate.openFor_of_error {files : FileTree} {args : ArchiveArgs} {e : ArchiveError}
    (h : Archive.openAt files ⟨args.path⟩ = .error e) :
    openFor files (some args) = .error (.archive e) := by
  simp [openFor, ensure, shut, h]

/-! ## Setting up -/

namespace Request

variable {β κ : Type} {r : Request} {registry : Registry β} {files : FileTree} {c : Check}

theorem validate_eq_ok (htask : r.taskId ≠ "") (hcategory : r.category ≠ "")
    (hqueue : r.queue ≠ "") : r.validate = .ok () := by
  unfold validate
  rw [if_neg htask, if_neg hcategory, if_neg hqueue]

theorem setUp_of_invalid {f : RequestFault} (h : r.validate = .error f) (registry : Registry β)
    (queue : Queue κ) (jobId : String) (files : FileTree) :
    r.setUp registry queue jobId files = .error (.configuration f.message) := by
  unfold setUp
  rw [h]
  rfl

theorem setUp_of_unknown (h : r.validate = .ok ()) (hfind : registry.find? r.backend = none)
    (queue : Queue κ) (jobId : String) (files : FileTree) :
    r.setUp registry queue jobId files = .error (.notFound r.backend) := by
  unfold setUp Job.create
  rw [h, hfind]
  rfl

/-- A valid request for a backend that there is comes down to opening its archive. -/
theorem setUp_of_known {b : Backend β} (h : r.validate = .ok ())
    (hfind : registry.find? r.backend = some b) (queue : Queue κ) (jobId : String)
    (files : FileTree) :
    r.setUp registry queue jobId files = (Gate.openFor files r.archive).map fun gate =>
      ⟨jobId, r.taskId, r.category, b, queue, r.queue, gate,
        .start jobId r.taskId r.backend r.category⟩ := by
  unfold setUp Job.create
  rw [h, hfind]
  show Except.bind (Gate.openFor files r.archive) _ = _
  cases Gate.openFor files r.archive with
  | error e => rfl
  | ok gate => rfl

namespace FailsFirst

/-- A request that fails with none of the checks of its fields is valid. -/
theorem valid (h : r.FailsFirst registry files c) (hc : 2 < c.place) : r.validate = .ok () := by
  apply validate_eq_ok
  · exact h.earlier .task (show 0 < c.place by omega)
  · exact h.earlier .category (show 1 < c.place by omega)
  · exact h.earlier .queue hc

/-- If its archive cannot be opened, it fails with the error of the archive. -/
theorem setUp_of_openAt (h : r.FailsFirst registry files c) (hc : 3 < c.place)
    {args : ArchiveArgs} {e : ArchiveError} (hargs : r.archive = some args)
    (hopen : Archive.openAt files ⟨args.path⟩ = .error e) (queue : Queue κ) (jobId : String) :
    r.setUp registry queue jobId files = .error (.archive e) := by
  obtain ⟨b, hfind⟩ := h.earlier .backend hc
  rw [setUp_of_known (h.valid (by omega)) hfind, hargs, Gate.openFor_of_error hopen]
  rfl

/-- The first check that a request does not pass gives the error, as long as the job is not set
    up by then. -/
theorem setUp (h : r.FailsFirst registry files c) (hc : c ≠ .archiving) (queue : Queue κ)
    (jobId : String) : r.setUp registry queue jobId files = .error (c.error r) := by
  have hfails := h.fails
  cases c with
  | task =>
    have htask : r.taskId = "" := Decidable.not_not.mp hfails
    have hinvalid : r.validate = .error .emptyTask := by
      unfold validate
      rw [if_pos htask]
    exact setUp_of_invalid hinvalid ..
  | category =>
    have htask : r.taskId ≠ "" := h.earlier .task (by decide)
    have hcategory : r.category = "" := Decidable.not_not.mp hfails
    have hinvalid : r.validate = .error .emptyCategory := by
      unfold validate
      rw [if_neg htask, if_pos hcategory]
    exact setUp_of_invalid hinvalid ..
  | queue =>
    have htask : r.taskId ≠ "" := h.earlier .task (by decide)
    have hcategory : r.category ≠ "" := h.earlier .category (by decide)
    have hqueue : r.queue = "" := Decidable.not_not.mp hfails
    have hinvalid : r.validate = .error .emptyQueue := by
      unfold validate
      rw [if_neg htask, if_neg hcategory, if_pos hqueue]
    exact setUp_of_invalid hinvalid ..
  | backend =>
    have hnone : registry.find? r.backend = none := by
      rw [Option.eq_none_iff_forall_ne_some]
      exact fun b hb => hfails ⟨b, hb⟩
    exact setUp_of_unknown (h.valid (by decide)) hnone ..
  | archivePath =>
    simp only [Check.Passes, Classical.not_forall, Decidable.not_not] at hfails
    obtain ⟨args, hargs, hpath⟩ := hfails
    have hopen : Archive.openAt files ⟨args.path⟩ = .error .emptyPath := if_pos hpath
    exact h.setUp_of_openAt (by decide) hargs hopen queue jobId
  | archiveDirectory =>
    simp only [Check.Passes, Classical.not_forall] at hfails
    obtain ⟨args, hargs, hhas, hdirectory⟩ := hfails
    have hpath : args.path ≠ "" := h.earlier .archivePath (by decide) args hargs
    have hopen := Archive.openAt_of_other hpath hhas hdirectory
    rw [h.setUp_of_openAt (by decide) hargs hopen queue jobId]
    unfold Check.error
    rw [hargs]
    rfl
  | archiving => exact absurd rfl hc

end FailsFirst

/-- A gate opens for the archive of a request that passes the checks of it. -/
theorem openFor_of_passes (hpath : Check.archivePath.Passes r registry files)
    (hdirectory : Check.archiveDirectory.Passes r registry files) :
    ∃ gate, Gate.openFor files r.archive = .ok gate := by
  cases hargs : r.archive with
  | none => exact ⟨_, rfl⟩
  | some args =>
    have hopen := Archive.openAt_of_directory (hpath args hargs) (hdirectory args hargs)
    exact ⟨_, Gate.openFor_of_openAt hopen⟩

/-- A request that passes all checks but the last one is set up. -/
theorem setUp_of_passes (h : ∀ b : Check, b.place < 6 → b.Passes r registry files)
    (queue : Queue κ) (jobId : String) :
    ∃ b gate, registry.find? r.backend = some b ∧
      r.setUp registry queue jobId files = .ok ⟨jobId, r.taskId, r.category, b, queue, r.queue,
        gate, .start jobId r.taskId r.backend r.category⟩ := by
  obtain ⟨b, hfind⟩ := h .backend (by decide)
  obtain ⟨gate, hopen⟩ :=
    openFor_of_passes (h .archivePath (by decide)) (h .archiveDirectory (by decide))
  have hvalid : r.validate = .ok () :=
    validate_eq_ok (h .task (by decide)) (h .category (by decide)) (h .queue (by decide))
  refine ⟨b, gate, hfind, ?_⟩
  rw [setUp_of_known hvalid hfind, hopen]
  rfl

/-! ## Executing -/

/-- A backend is found under its own name. -/
theorem name_of_find? {b : Backend β} {name : String} (h : registry.find? name = some b) :
    b.name = name := by
  unfold Registry.find? at h
  have hname := List.find?_some h
  exact eq_of_beq hname

/-- A request is refused because of the first check that it does not pass. -/
theorem execute_of_failsFirst {world : World β κ}
    (h : r.FailsFirst registry world.env.files c) (queue : Queue κ) (fresh : String) :
    r.execute registry queue fresh world = r.refusal fresh c world := by
  unfold execute refusal
  dsimp only
  by_cases hc : c = .archiving
  · subst hc
    obtain ⟨b, gate, hfind, hsetUp⟩ := setUp_of_passes h.earlier queue (r.jobId.getD fresh)
    have hfails := h.fails
    simp only [Check.Passes, Classical.not_forall] at hfails
    obtain ⟨args, b', hargs, hfind', hunable⟩ := hfails
    cases hfind.symm.trans hfind'
    have harchiving : validateArchiving b r.archive = .error (Check.archiving.error r) := by
      unfold validateArchiving Check.error
      rw [if_pos, name_of_find? hfind]
      rw [hargs, Bool.eq_false_iff.mpr hunable]
      rfl
    -- The job is set up by now, so that its checkpoint is known.
    rw [hsetUp]
    dsimp only
    rw [harchiving]
    rfl
  · rw [h.setUp hc queue (r.jobId.getD fresh)]
    dsimp only
    rw [Check.notices, if_neg hc]
    cases c with
    | archiving => exact absurd rfl hc
    | _ => rfl

theorem validateArchiving_of_passes {b : Backend β} (hfind : registry.find? r.backend = some b)
    (h : Check.archiving.Passes r registry files) :
    validateArchiving b r.archive = .ok () := by
  unfold validateArchiving
  cases hargs : r.archive with
  | none => rfl
  | some args =>
    rw [h args b hargs hfind]
    rfl

end Request

/-- A request that is refused because of a check: it ends with the error of the check, which is
    fatal, and with a checkpoint only if its job is set up by then; nothing is taken, and the
    files, the clock, and what the backends and the queue keep are what they were. -/
structure Execution.Refused {β κ : Type} (e : Execution β κ) (r : Request) (fresh : String)
    (c : Check) (world : World β κ) : Prop where
  result : e.result = .error ⟨c.error r, c.checkpoint? r (r.jobId.getD fresh)⟩
  fatal : (c.error r).isFatal = true
  items : e.items = []
  world : e.world = world

theorem Request.FailsFirst.refused {β κ : Type} {r : Request} {registry : Registry β} {c : Check}
    {world : World β κ} (h : r.FailsFirst registry world.env.files c) (queue : Queue κ)
    (fresh : String) : (r.execute registry queue fresh world).Refused r fresh c world := by
  rw [execute_of_failsFirst h]
  exact ⟨rfl, c.isFatal_error r, rfl, rfl⟩

/-- Executing a request asks its backend for a stream at least once exactly if the request passes
    all checks. Otherwise it is refused because of the first check that it does not pass; this
    leaves the world as it is, and the queue is asked for nothing. -/
theorem asked_iff_admitted {β κ : Type} (r : Request) (registry : Registry β) (queue : Queue κ)
    (fresh : String) (world : World β κ) :
    let e := r.execute registry queue fresh world
    ∃ calls, r.execute registry.watched queue fresh (world.pair []) = e.watched calls ∧
      (calls ≠ [] ↔ ∀ c : Check, c.Passes r registry world.env.files) ∧
      ((∀ c : Check, c.Passes r registry world.env.files) ∨
        ∃ c, r.FailsFirst registry world.env.files c ∧ e.Refused r fresh c world ∧
          (r.execute registry queue.traced fresh (world.traced [])).Refused r fresh c
            (world.traced [])) := by
  intro e
  by_cases hall : ∀ c : Check, c.Passes r registry world.env.files
  · obtain ⟨b, gate, hfind, hsetUp⟩ := Request.setUp_of_passes (fun c _ => hall c) queue
      (r.jobId.getD fresh)
    have harchiving := Request.validateArchiving_of_passes hfind (hall .archiving)
    obtain ⟨n, -, hwatched⟩ := Request.execute_watched hsetUp harchiving
    refine ⟨_, hwatched, ⟨fun _ => hall, fun _ => ?_⟩, .inl hall⟩
    -- There is always a first run, which asks.
    unfold Request.calls
    rw [List.range_succ_eq_map]
    exact List.cons_ne_nil _ _
  · obtain ⟨failing, hfailing⟩ := Classical.not_forall.mp hall
    obtain ⟨c, hfirst⟩ := Request.exists_failsFirst hfailing
    have hwatched : r.FailsFirst registry.watched (world.pair ([] : List Call)).env.files c :=
      ⟨fun b hb => (b.passes_watched r registry _).mpr (hfirst.earlier b hb),
        fun hpasses => hfirst.fails ((c.passes_watched r registry _).mp hpasses)⟩
    have htraced : r.FailsFirst registry (world.traced []).env.files c := hfirst
    refine ⟨[], ?_, ⟨fun hasked => absurd rfl hasked, fun h => absurd h hall⟩, .inr ⟨c, hfirst,
      hfirst.refused queue fresh, htraced.refused queue.traced fresh⟩⟩
    show _ = (r.execute registry queue fresh world).watched []
    rw [Request.execute_of_failsFirst hwatched, Request.execute_of_failsFirst hfirst]
    rfl

end Harvest
