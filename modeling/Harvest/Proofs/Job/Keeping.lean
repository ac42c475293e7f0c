/-
  Harvest.Proofs.Job.Keeping

  What executing a request does to the world besides its items. The backend for files of records
  changes the files by storing in the archive only, and the job by pushing items. So whatever both
  keep, a run keeps (`Job.Comes.keeps`), and so does executing the request (`execute_keeps`). Each
  item that is pushed belongs to the job, with its fields in order. A run fails with an error of its
  backend or archive, with an item that lacks what a job has to know of it, or with what the queue
  said to an item, and with nothing else (`Outlet.forwardAll_error`, `execute_error`).
-/
import Harvest.Proofs.Job.Samples
import Harvest.Proofs.Job.Verdict
import Harvest.Proofs.Queue.Payload

namespace Harvest

/-! ## What is kept -/

/-- An item as a job passes it on: it belongs to the job, and its fields are in order. -/
structure Item.PassedOn (i : Item) (job : String) : Prop where
  belongs : i.get? jobField = some (.string job)
  ordered : i.Ordered

theorem Item.Ordered.passedOn {i : Item} (h : i.Ordered) (job : String) :
    (i.tagged job).PassedOn job :=
  ⟨by simp [get?_tagged], h.tagged job⟩

section

variable {β κ : Type} {I : Store κ → Prop}

/-- A run keeps what its pushes and the draws from its stream keep, and the items that are taken in
    it belong to its job, if those of the stream are made of records. -/
theorem Job.Comes.keeps {j : Job β κ} {world : World β κ} {opened : Opening β} {run : Run β κ}
    (h : j.Comes world opened run) (henv : opened.2 = world.env)
    (hpush : ∀ s payload, I s → I (j.queue.push j.queueName payload s).2)
    (hdrawn : ∀ items, opened.1 = .ok items →
      (items world.env).Gives I (fun r => Transient r ∧ Made r) world.queue)
    (hstart : I world.store) :
    I run.world.store ∧ ∀ i ∈ run.items, i.PassedOn j.jobId := by
  cases h with
  | failed =>
    cases henv
    exact ⟨hstart, List.forall_mem_nil _⟩
  | @passed items env start job p hp =>
    cases henv
    -- An item is tagged before it is pushed, and so are those that are drawn later.
    have htagged : (items.tagged j.jobId world.env).Gives I
        (fun r => Transient r ∧ ∀ i, r = .ok i → i.PassedOn j.jobId) world.queue := by
      refine (hdrawn items rfl).map ?_
      rintro r ⟨htransient, hmade⟩
      cases r with
      | error e => exact ⟨htransient, fun i hi => nomatch hi⟩
      | ok i =>
        refine ⟨fun e he => (nomatch he), ?_⟩
        rintro _ ⟨⟩
        obtain ⟨next, hshaped⟩ := hmade i rfl
        exact Item.Ordered.passedOn hshaped.ordered j.jobId
    have hpassed := Outlet.forwardAll_gives hpush (fun e he => he.1 e rfl) htagged start
    rw [hp]
    exact ⟨hpassed.1, fun i hi => (hpassed.2.1 i hi).2 i rfl⟩

namespace Request

variable {r : Request} {queue : Queue κ} {job : Job β κ}

/-- A run of a job for files of records keeps what pushing to its queue and storing in its archive
    keep. -/
theorem run_keeps (hj : r.JobFor Lines.backend queue job)
    (hpush : ∀ s payload, I s → I (queue.push r.queue payload s).2)
    (hstore : Lines.StoringKeeps I r.category (r.archive.map fun args => ⟨⟨args.path⟩⟩))
    (args : Fields) (resume : Bool) {world : World β κ} (hstart : I world.store) :
    I (job.run args r.archive resume world).world.store ∧
      ∀ i ∈ (job.run args r.archive resume world).items, i.PassedOn job.jobId := by
  rcases job.run_comes args r.archive resume world with
    ⟨hitems, hworld, -⟩ | ⟨gate, asking, hgate, hasking, hcomes⟩
  · rw [hitems, hworld]
    exact ⟨hstart, List.forall_mem_nil _⟩
  · have hsame := hj.ready.opened world.env.files
    rw [hgate] at hsame
    cases hsame
    rw [hj.backend, hj.ready.category] at hcomes
    rw [← hj.ready.archive] at hstore
    have hkeeps := Gate.keeps_of_asking? hasking hstore
    refine hcomes.keeps (Lines.ask_env ..) ?_ ?_ hstart
    · rw [hj.queue, hj.name]
      exact hpush
    · intro items hitems
      exact Lines.ask_drawn hkeeps hitems hstart

/-- So does every run of the series. -/
theorem series_keeps (hj : r.JobFor Lines.backend queue job)
    (hpush : ∀ s payload, I s → I (queue.push r.queue payload s).2)
    (hstore : Lines.StoringKeeps I r.category (r.archive.map fun args => ⟨⟨args.path⟩⟩))
    {world : World β κ} (hstart : I world.store) (k : Nat) :
    I (r.series false job world k).world.store ∧
      ∀ i ∈ (r.series false job world k).items, i.PassedOn job.jobId := by
  induction k with
  | zero => exact run_keeps hj hpush hstore r.args false hstart
  | succ k ih =>
    -- A run goes on in the world in which the one before it ended.
    obtain ⟨hj', hid⟩ := hj.series world k
    rw [series_succ, ← hid]
    exact run_keeps hj' hpush hstore r.args true ih.1

/-- Executing a request for files of records keeps what pushing to its queue and storing in its
    archive keep, and the items that are taken are passed on by the job of the request. -/
theorem execute_keeps {r : Request} {registry : Registry β} {queue : Queue κ} {fresh : String}
    {world : World β κ} (hregistry : ∀ b, registry.find? r.backend = some b → b = Lines.backend)
    (hpush : ∀ s payload, I s → I (queue.push r.queue payload s).2)
    (hstore : Lines.StoringKeeps I r.category (r.archive.map fun args => ⟨⟨args.path⟩⟩))
    (hstart : I world.store) :
    let e := r.execute registry queue fresh world
    I e.world.store ∧ ∀ i ∈ e.items, i.PassedOn (r.jobId.getD fresh) := by
  intro e
  rcases r.execute_cases registry queue fresh world with
    ⟨-, hitems, hworld⟩ | ⟨job, n, hsetUp, -, hitems, hworld, -⟩
  · rw [show e.items = [] from hitems, show e.world = world from hworld]
    exact ⟨hstart, List.forall_mem_nil _⟩
  · obtain ⟨backend, gate, hfind, -⟩ := setUp_eq_ok hsetUp
    rw [hregistry backend hfind] at hfind
    obtain ⟨hj, hid⟩ := jobFor_of_setUp hsetUp hfind
    have hkeeps := fun k => series_keeps hj hpush hstore hstart k
    rw [show e.items = _ from hitems, show e.world = _ from hworld, ← hid]
    refine ⟨(hkeeps n).1, ?_⟩
    intro i hi
    obtain ⟨k, -, hk⟩ := List.mem_flatMap.mp hi
    exact (hkeeps k).2 i hk

end Request

end

/-! ## What a job may end with -/

/-- An error with which a job may end: one of its backend or archive, of what was asked for, of
    what an item lacks, or what the queue said to an item. -/
inductive JobError.OfJob {κ : Type} (queue : Queue κ) (name : String) : JobError → Prop where
  | notFound (backend : String) : OfJob queue name (.notFound backend)
  | configuration (words : String) : OfJob queue name (.configuration words)
  | archive (e : ArchiveError) : OfJob queue name (.archive e)
  | backend (e : BackendError) : OfJob queue name (.backend e)
  | unmarked {i : Item} {e : JobError} (h : i.marks = .error e) : OfJob queue name e
  | refused {i : Item} {s t : Store κ} {e : QueueError}
      (h : queue.push name i.bytes s = (.error e, t)) : OfJob queue name (.queue e)

section

variable {β κ : Type}

theorem Outlet.forwardAll_error (outlet : Outlet κ)
    (d : Draw (Env β) (Except BackendError Item)) (c : Checkpoint) (own : κ) {e : JobError}
    (h : (outlet.forwardAll d c own).result = .error e) : e.OfJob outlet.queue outlet.name := by
  induction d generalizing c own with
  | stop env => cases h
  | item r env rest ih =>
    cases r with
    | error b =>
      cases h
      exact .backend b
    | ok i =>
      -- It is this item that is refused, by the job or by the queue, or one behind it.
      have hpasses := outlet.forwardAll_passes i c env rest own
      generalize outlet.forwardAll (.item (.ok i) env rest) c own = p at hpasses h
      cases hpasses with
      | unmarked hm =>
        cases h
        exact .unmarked hm
      | refused hm hp =>
        cases h
        exact .refused hp
      | accepted hm hp => exact ih _ _ _ h

theorem Job.run_error {j : Job β κ} {args : Fields} {archive : Option ArchiveArgs}
    {resume : Bool} {world : World β κ} {e : JobError}
    (h : (j.run args archive resume world).result = .error e) :
    e.OfJob j.queue j.queueName := by
  rcases j.run_comes args archive resume world with
    ⟨-, -, ⟨fault, hresult⟩ | ⟨words, hresult⟩⟩ | ⟨gate, asking, -, -, hcomes⟩
  · cases hresult.symm.trans h
    exact .archive fault
  · cases hresult.symm.trans h
    exact .configuration words
  · generalize j.backend.ask j.category (j.runArgs args resume) asking world.env = opened at hcomes
    generalize j.run args archive resume world = run at h hcomes
    cases hcomes with
    | failed =>
      cases h
      exact .backend _
    | passed hp =>
      rw [hp] at h
      exact j.outlet.forwardAll_error _ _ _ h

namespace Request

variable {r : Request} {registry : Registry β} {queue : Queue κ}

theorem setUp_error {jobId : String} {files : FileTree} {e : JobError}
    (h : r.setUp registry queue jobId files = .error e) : e.OfJob queue r.queue := by
  simp only [setUp, Job.create, Job.withArchive] at h
  cases hvalid : r.validate with
  | error f =>
    rw [hvalid] at h
    cases h
    exact .configuration _
  | ok u =>
    rw [hvalid] at h
    cases hfind : registry.find? r.backend with
    | none =>
      rw [hfind] at h
      cases h
      exact .notFound _
    | some backend =>
      rw [hfind] at h
      cases hopen : Gate.openFor files r.archive with
      | ok gate =>
        have h : Except.bind (Gate.openFor files r.archive) _ = .error e := h
        rw [hopen] at h
        cases h
      | error e' =>
        have h : Except.bind (Gate.openFor files r.archive) _ = .error e := h
        rw [hopen] at h
        cases h
        obtain ⟨fault, rfl⟩ := Gate.ensure_error hopen
        exact .archive fault

theorem series_error {job : Job β κ} (hj : r.Ready job) (world : World β κ) (k : Nat)
    {e : JobError} (h : (r.series false job world k).result = .error e) :
    e.OfJob job.queue job.queueName := by
  cases k with
  | zero => exact Job.run_error h
  | succ k =>
    rw [series_succ] at h
    have hrun := Job.run_error h
    rw [series_job hj world k] at hrun
    exact hrun

/-- A job that does not end well ends with such an error. -/
theorem execute_error {fresh : String} {world : World β κ} {f : Failure}
    (h : (r.execute registry queue fresh world).result = .error f) :
    f.error.OfJob queue r.queue := by
  cases hsetUp : r.setUp registry queue (r.jobId.getD fresh) world.env.files with
  | error e =>
    rw [execute.eq_def] at h
    simp only [hsetUp] at h
    cases h
    exact setUp_error hsetUp
  | ok job =>
    cases harchiving : validateArchiving job.backend r.archive with
    | error e =>
      rw [execute.eq_def] at h
      simp only [hsetUp, harchiving] at h
      cases h
      unfold validateArchiving at harchiving
      split at harchiving <;> cases harchiving
      exact .configuration _
    | ok u =>
      obtain ⟨n, -, -, hspan⟩ := execute_eq_span hsetUp harchiving
      have hready := ready_of_setUp hsetUp
      rw [hspan, span_result, Run.outcome] at h
      obtain ⟨backend, gate, -, -, rfl⟩ := setUp_eq_ok hsetUp
      split at h
      · cases h
      · next e hresult =>
        cases h
        exact series_error hready world n hresult

end Request

end

end Harvest
