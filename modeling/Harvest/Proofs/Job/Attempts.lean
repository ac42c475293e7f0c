/-
  Harvest.Proofs.Job.Attempts

  How often a job is run. The runs of an execution are a series, each of which starts where the
  one before it stopped; the series depends on no budget, and executing the request is the part
  of it up to the first run after which there is no other (`attempts_eq_span`). From the part
  one reads off what was told, what the queue took and what the backend was asked
  (`execute_within_budget`).
-/
import Harvest.Proofs.Job.ResumeArgs
import Harvest.Proofs.Job.Watched

namespace Harvest

open Scripted (Call)

/-! ## Stopping -/

namespace RetryPolicy

/-- After a run of a job that has failed so many times before it there is another run. -/
def GoesOn (p : RetryPolicy) (failures : Nat) (result : Except JobError Unit) : Prop :=
  p.resumable = true ∧ failures + 1 < p.maxRetries ∧ ∃ e, result = .error e ∧ e.isFatal = false

/-- The run of a number is the last one if it ends well, fatally, or with an error that uses up
    the failures that the job may have. -/
inductive Stops (p : RetryPolicy) (number : Nat) : Except JobError Unit → Prop where
  | success : Stops p number (.ok ())
  | fatal (e : JobError) (hfatal : e.isFatal = true) : Stops p number (.error e)
  | spent (e : JobError) (htransient : e.isFatal = false)
      (hspent : p.resumable = false ∨ p.maxRetries = 0 ∨ number = p.maxRetries) :
      Stops p number (.error e)

/-- As long as the failures are not used up, a run is the last one or goes on. -/
theorem stops_iff_not_goesOn {p : RetryPolicy} {failures : Nat}
    (hbudget : failures + 1 ≤ max 1 p.maxRetries) (result : Except JobError Unit) :
    p.Stops (failures + 1) result ↔ ¬ p.GoesOn failures result := by
  constructor
  · rintro hstops ⟨hresumable, hless, e, hresult, htransient⟩
    cases hstops with
    | success => cases hresult
    | fatal e' hfatal =>
      cases hresult
      rw [hfatal] at htransient
      cases htransient
    | spent e' _ hspent =>
      rcases hspent with hspent | hspent | hspent
      · rw [hspent] at hresumable
        cases hresumable
      · omega
      · omega
  · intro hnot
    match result with
    | .ok () => exact .success
    | .error e =>
      cases hfatal : e.isFatal with
      | true => exact .fatal e hfatal
      | false =>
        refine .spent e hfatal ?_
        cases hresumable : p.resumable with
        | false => exact .inl rfl
        | true =>
          have hspent : ¬ failures + 1 < p.maxRetries :=
            fun hless => hnot ⟨hresumable, hless, e, rfl, hfatal⟩
          omega

theorem next_of_goesOn {p : RetryPolicy} {failures : Nat} {result : Except JobError Unit}
    (h : p.GoesOn failures result) :
    p.next failures (.classify result) = ⟨.retry, failures + 1, .run true⟩ := by
  obtain ⟨hresumable, hless, e, rfl, htransient⟩ := h
  have hcontinues : ¬ (!p.resumable || decide (p.maxRetries ≤ failures + 1)) = true := by
    rw [hresumable, Bool.not_true, Bool.false_or, decide_eq_true_eq]
    omega
  unfold RunOutcome.classify
  dsimp only
  rw [htransient, if_neg Bool.false_ne_true]
  unfold next
  dsimp only
  rw [if_neg hcontinues]

theorem action_of_stop {p : RetryPolicy} {failures : Nat} {e : JobError}
    (h : ¬ p.GoesOn failures (.error e)) :
    (p.next failures (.classify (.error e))).action = .raise e := by
  unfold RunOutcome.classify
  dsimp only
  cases hfatal : e.isFatal with
  | true => rfl
  | false =>
    have hstops : (!p.resumable || decide (p.maxRetries ≤ failures + 1)) = true := by
      rw [Bool.or_eq_true, Bool.not_eq_true', decide_eq_true_eq]
      cases hresumable : p.resumable with
      | false => exact .inl rfl
      | true =>
        have hspent : ¬ failures + 1 < p.maxRetries :=
          fun hless => h ⟨hresumable, hless, e, rfl, hfatal⟩
        exact .inr (by omega)
    rw [if_neg Bool.false_ne_true]
    unfold next
    dsimp only
    rw [if_pos hstops]

/-- Runs behind each of which there is another one are within the budget, with the last one. -/
theorem within_of_goesOn {p : RetryPolicy} {results : Nat → Except JobError Unit} {n : Nat}
    (h : ∀ k < n, p.GoesOn k (results k)) : n + 1 ≤ max 1 p.maxRetries := by
  cases n with
  | zero => omega
  | succ n =>
    obtain ⟨-, hless, -⟩ := h n (Nat.lt_succ_self n)
    omega

end RetryPolicy

/-- There is only one first run after which there is no other. -/
theorem RetryPolicy.stop_unique {p : RetryPolicy} {results : Nat → Except JobError Unit}
    {m n : Nat} (hm : ∀ k < m, p.GoesOn k (results k)) (hm' : ¬ p.GoesOn m (results m))
    (hn : ∀ k < n, p.GoesOn k (results k)) (hn' : ¬ p.GoesOn n (results n)) : m = n := by
  rcases Nat.lt_trichotomy m n with hlt | heq | hlt
  · exact absurd (hn m hlt) hm'
  · exact heq
  · exact absurd (hm n hlt) hn'

/-! ## Checkpoints of runs that go on -/

namespace Checkpoint

/-- A checkpoint at which nothing is done, but so many runs went on from an earlier one. -/
def resumed (c : Checkpoint) (n : Nat) : Checkpoint :=
  { c.reset with resumes := Number.wrap Number.greatestUnsigned32 n }

theorem markResumed_resumed (c : Checkpoint) (n : Nat) (items : List Item) :
    ((c.resumed n).recordAll items).markResumed = (c.resumed (n + 1)).recordAll items := by
  have hrecorded : ∀ n, (c.resumed n).recordAll items =
      { c.reset.recordAll items with resumes := Number.wrap Number.greatestUnsigned32 n } :=
    fun n => recordAll_resumes c.reset _ items
  rw [hrecorded, hrecorded]
  unfold markResumed
  dsimp only
  rw [Number.wrap_wrap_add]

end Checkpoint

/-! ## Series of runs -/

/-- A run for an archive that is open changes the checkpoint of its job and nothing else. -/
theorem Job.run_job {β κ : Type} {j : Job β κ} {archive : Option ArchiveArgs} {world : World β κ}
    (h : j.gate.ensure world.env.files archive = .ok j.gate) (args : Fields) (resume : Bool) :
    (j.run args archive resume world).job =
      { j with checkpoint := (j.run args archive resume world).job.checkpoint } := by
  unfold run
  rw [h]
  dsimp only
  split <;> rfl

namespace Request

variable {β κ : Type}

/-- The runs of a job for a request by their number. The first one may be fresh, and each of the
    others goes on from the one before it. -/
def series (r : Request) : Bool → Job β κ → World β κ → Nat → Run β κ
  | resume, job, world, 0 => job.run r.args r.archive resume world
  | resume, job, world, k + 1 =>
    let first := job.run r.args r.archive resume world
    r.series true first.job first.world k

theorem series_succ (r : Request) (resume : Bool) (job : Job β κ) (world : World β κ) (k : Nat) :
    r.series resume job world (k + 1) =
      (r.series resume job world k).job.run r.args r.archive true
        (r.series resume job world k).world := by
  induction k generalizing resume job world with
  | zero => rfl
  | succ k ih =>
    show r.series true _ _ (k + 1) = _
    rw [ih]
    rfl

/-- The end of a job with its last run. -/
def finished (r : Request) (policy : RetryPolicy) (failures : Nat) (run : Run β κ) :
    Execution β κ :=
  let forwarded := forwardedSamples run.job run.items
  match run.result with
  | .ok () => (r.completed run.job run.world).after [] forwarded run.items
  | .error e =>
    (r.cancelled run.job (policy.next failures (.classify (.error e))).failures e
      run.world).after [] forwarded run.items

/-- Some runs of a job that has failed so many times before them, each of which fails except
    perhaps the last one, whose number among them is given. -/
def span (r : Request) (policy : RetryPolicy) : Nat → (Nat → Run β κ) → Nat → Execution β κ
  | failures, runs, 0 => r.finished policy failures (runs 0)
  | failures, runs, n + 1 =>
    let first := runs 0
    (r.span policy (failures + 1) (fun k => runs (k + 1)) n).after
      [.resuming first.job.jobId r.taskId r.backend (failures + 1) policy.maxRetries]
      (forwardedSamples first.job first.items ++ [.jobResumed r.backend r.category]) first.items

theorem attempts_of_goesOn {r : Request} {policy : RetryPolicy} {failures : Nat} {resume : Bool}
    {job : Job β κ} {world : World β κ}
    (h : policy.GoesOn failures (job.run r.args r.archive resume world).result) (spare : Nat) :
    let run := job.run r.args r.archive resume world
    r.attempts policy (spare + 1) failures resume job world =
      (r.attempts policy spare (failures + 1) true run.job run.world).after
        [.resuming run.job.jobId r.taskId r.backend (failures + 1) policy.maxRetries]
        (forwardedSamples run.job run.items ++ [.jobResumed r.backend r.category]) run.items := by
  intro run
  have hnext := RetryPolicy.next_of_goesOn h
  rw [attempts.eq_def]
  dsimp only
  rw [hnext]

theorem attempts_of_stop {r : Request} {policy : RetryPolicy} {failures : Nat} {resume : Bool}
    {job : Job β κ} {world : World β κ}
    (h : ¬ policy.GoesOn failures (job.run r.args r.archive resume world).result) (spare : Nat) :
    r.attempts policy spare failures resume job world =
      r.finished policy failures (job.run r.args r.archive resume world) := by
  unfold attempts finished
  generalize job.run r.args r.archive resume world = run at h
  obtain ⟨result, job, items, world⟩ := run
  match result with
  | .ok () => rfl
  | .error e =>
    have haction := RetryPolicy.action_of_stop h
    dsimp only
    rw [haction]

/-- Running a job again and again is the part of its series up to the first run after which
    there is no other, whatever is left of the budget. -/
theorem attempts_eq_span (r : Request) (policy : RetryPolicy) (spare failures : Nat)
    (resume : Bool) (job : Job β κ) (world : World β κ)
    (hspare : policy.maxRetries ≤ failures + spare) :
    ∃ n, (∀ k < n, policy.GoesOn (failures + k) (r.series resume job world k).result) ∧
      ¬ policy.GoesOn (failures + n) (r.series resume job world n).result ∧
      r.attempts policy spare failures resume job world =
        r.span policy failures (r.series resume job world) n := by
  -- The failures and the spare runs together always cover the budget.
  induction spare generalizing failures resume job world with
  | zero =>
    have hstop : ¬ policy.GoesOn failures (job.run r.args r.archive resume world).result := by
      rintro ⟨-, hless, -⟩
      omega
    exact ⟨0, fun k hk => absurd hk (Nat.not_lt_zero k), hstop, attempts_of_stop hstop 0⟩
  | succ spare ih =>
    by_cases hgo : policy.GoesOn failures (job.run r.args r.archive resume world).result
    · obtain ⟨n, hgoes, hstop, hattempts⟩ := ih (failures + 1) true
        (job.run r.args r.archive resume world).job (job.run r.args r.archive resume world).world
        (by omega)
      refine ⟨n + 1, ?_, ?_, ?_⟩
      · intro k hk
        cases k with
        | zero => exact hgo
        | succ k =>
          have hk' := hgoes k (by omega)
          rw [show failures + (k + 1) = failures + 1 + k by omega]
          exact hk'
      · rw [show failures + (n + 1) = failures + 1 + n by omega]
        exact hstop
      · rw [attempts_of_goesOn hgo spare, hattempts]
        rfl
    · exact ⟨0, fun k hk => absurd hk (Nat.not_lt_zero k), hgo, attempts_of_stop hgo (spare + 1)⟩

end Request

/-- What a job comes to if a run is its last one: the checkpoint of the run, with its error if
    it failed. -/
def Run.outcome {β κ : Type} (run : Run β κ) : Except Failure Checkpoint :=
  match run.result with
  | .ok () => .ok run.job.checkpoint
  | .error e => .error ⟨e, some run.job.checkpoint⟩

/-- The number of failures that a notice tells of. -/
def Notice.failures? : Notice → Option Nat
  | .resuming _ _ _ failures _ => some failures
  | .cancelled _ _ _ failures _ => some failures
  | _ => none

namespace Request

variable {β κ : Type}

/-! ## What a span comes to -/

theorem span_result (r : Request) (policy : RetryPolicy) (failures : Nat)
    (runs : Nat → Run β κ) (n : Nat) :
    (r.span policy failures runs n).result = (runs n).outcome := by
  induction n generalizing failures runs with
  | zero =>
    show (r.finished policy failures (runs 0)).result = _
    unfold finished Run.outcome
    split <;> rfl
  | succ n ih => exact ih (failures + 1) fun k => runs (k + 1)

/-- The world is the one after the last run. -/
theorem span_world (r : Request) (policy : RetryPolicy) (failures : Nat)
    (runs : Nat → Run β κ) (n : Nat) :
    (r.span policy failures runs n).world = (runs n).world := by
  induction n generalizing failures runs with
  | zero =>
    show (r.finished policy failures (runs 0)).world = _
    unfold finished
    split <;> rfl
  | succ n ih => exact ih (failures + 1) fun k => runs (k + 1)

/-- The queue took what it took of the runs, one after the other. -/
theorem span_items (r : Request) (policy : RetryPolicy) (failures : Nat)
    (runs : Nat → Run β κ) (n : Nat) :
    (r.span policy failures runs n).items =
      (List.range (n + 1)).flatMap fun k => (runs k).items := by
  induction n generalizing failures runs with
  | zero =>
    show (r.finished policy failures (runs 0)).items = _
    rw [List.range_one, List.flatMap_singleton]
    unfold finished
    split
    · exact List.append_nil _
    · exact List.append_nil _
  | succ n ih =>
    show (runs 0).items ++ (r.span policy (failures + 1) (fun k => runs (k + 1)) n).items = _
    rw [ih, List.range_succ_eq_map (n := n + 1), List.flatMap_cons, List.flatMap_map]

/-- No notice tells of more failures than there were runs. -/
theorem span_failures (r : Request) (policy : RetryPolicy) (failures : Nat)
    (runs : Nat → Run β κ) (n : Nat) :
    ∀ notice ∈ (r.span policy failures runs n).notices, ∀ told,
      notice.failures? = some told → told ≤ failures + n + 1 := by
  induction n generalizing failures runs with
  | zero =>
    intro notice hnotice told htold
    have hnotice : notice ∈ (r.finished policy failures (runs 0)).notices := hnotice
    unfold finished at hnotice
    split at hnotice
    · rw [List.mem_singleton.mp hnotice] at htold
      cases htold
    · next e _ =>
      have hnext : (policy.next failures (.classify (.error e))).failures ≤ failures + 1 := by
        unfold RunOutcome.classify
        dsimp only
        split
        · exact Nat.le_succ failures
        · unfold RetryPolicy.next
          dsimp only
          split <;> exact Nat.le_refl _
      rw [List.mem_singleton.mp hnotice] at htold
      cases htold
      omega
  | succ n ih =>
    intro notice hnotice told htold
    rcases List.mem_append.mp hnotice with hnotice | hnotice
    · rw [List.mem_singleton.mp hnotice] at htold
      cases htold
      omega
    · have hle := ih (failures + 1) (fun k => runs (k + 1)) notice hnotice told htold
      omega

end Request

/-- The execution, whose backend was watched. -/
def Execution.watched {β κ : Type} (e : Execution β κ) (calls : List Call) :
    Execution (β × List Call) κ :=
  ⟨e.result, e.notices, e.samples, e.items, e.world.pair calls⟩

namespace Request

variable {β κ : Type}

/-- A span of watched runs is the watched span. -/
theorem span_watched (r : Request) (policy : RetryPolicy) (failures : Nat)
    (runs : Nat → Run β κ) (calls : Nat → List Call) (n : Nat) :
    r.span policy failures (fun k => (runs k).watched (calls k)) n =
      (r.span policy failures runs n).watched (calls n) := by
  induction n generalizing failures runs calls with
  | zero =>
    show r.finished policy failures ((runs 0).watched (calls 0)) =
      (r.finished policy failures (runs 0)).watched (calls 0)
    generalize runs 0 = run
    obtain ⟨result, job, items, world⟩ := run
    match result with
    | .ok () => rfl
    | .error e => rfl
  | succ n ih =>
    have hrest := ih (failures + 1) (fun k => runs (k + 1)) fun k => calls (k + 1)
    show Execution.after (r.span policy (failures + 1)
      (fun k => (runs (k + 1)).watched (calls (k + 1))) n) _ _ _ = _
    rw [hrest]
    rfl

/-! ## Setting up -/

/-- A job that is set up is one of the backend of the request, at whose checkpoint nothing is
    done, and whose gate is open for the archive of the request. -/
theorem setUp_eq_ok {r : Request} {registry : Registry β} {queue : Queue κ} {jobId : String}
    {files : FileTree} {job : Job β κ} (h : r.setUp registry queue jobId files = .ok job) :
    ∃ backend gate, registry.find? r.backend = some backend ∧
      Gate.openFor files r.archive = .ok gate ∧
      job = ⟨jobId, r.taskId, r.category, backend, queue, r.queue, gate,
        .start jobId r.taskId r.backend r.category⟩ := by
  unfold setUp at h
  cases hvalid : r.validate with
  | error f =>
    rw [hvalid] at h
    cases h
  | ok u =>
    rw [hvalid] at h
    unfold Job.create at h
    cases hfind : registry.find? r.backend with
    | none =>
      rw [hfind] at h
      cases h
    | some backend =>
      rw [hfind] at h
      cases hopen : Gate.openFor files r.archive with
      | error e =>
        have h : Except.bind (Gate.openFor files r.archive) _ = .ok job := h
        rw [hopen] at h
        cases h
      | ok gate =>
        have h : Except.bind (Gate.openFor files r.archive) _ = .ok job := h
        rw [hopen] at h
        cases h
        exact ⟨backend, gate, rfl, rfl, rfl⟩

/-- Setting up a job does the same whether its backend is watched or not. -/
theorem setUp_watched {r : Request} {registry : Registry β} {queue : Queue κ} {jobId : String}
    {files : FileTree} {job : Job β κ} (h : r.setUp registry queue jobId files = .ok job) :
    r.setUp registry.watched queue jobId files = .ok job.watched := by
  obtain ⟨backend, gate, hfind, hopen, rfl⟩ := setUp_eq_ok h
  unfold setUp at h ⊢
  cases hvalid : r.validate with
  | error f =>
    rw [hvalid] at h
    cases h
  | ok u =>
    have hwatched : registry.watched.find? r.backend = some backend.watched := by
      rw [Registry.find?_watched, hfind]
      rfl
    unfold Job.create
    rw [hwatched]
    show Except.bind (Gate.openFor files r.archive) _ = _
    rw [hopen]
    rfl

/-- The job of a request is ready when its gate is open for the archive of the request. -/
structure Ready (r : Request) (job : Job β κ) : Prop where
  opened : ∀ files, job.gate.ensure files r.archive = .ok job.gate
  archive : job.gate.archive = r.archive.map fun args => ⟨⟨args.path⟩⟩
  category : job.category = r.category

theorem ready_of_setUp {r : Request} {registry : Registry β} {queue : Queue κ} {jobId : String}
    {files : FileTree} {job : Job β κ} (h : r.setUp registry queue jobId files = .ok job) :
    r.Ready job := by
  obtain ⟨backend, gate, -, hopen, rfl⟩ := setUp_eq_ok h
  exact ⟨Gate.ensure_of_openFor hopen, Gate.archive_of_openFor hopen, rfl⟩

/-! ## The series of a job that is ready -/

/-- The runs of a job change its checkpoint and nothing else. -/
theorem series_job {r : Request} {job : Job β κ} (h : r.Ready job) (world : World β κ) (k : Nat) :
    (r.series false job world k).job =
      { job with checkpoint := (r.series false job world k).job.checkpoint } := by
  induction k with
  | zero => exact Job.run_job (h.opened _) r.args false
  | succ k ih =>
    rw [series_succ]
    generalize r.series false job world k = before at ih
    obtain ⟨result, job', items, world'⟩ := before
    dsimp only at ih ⊢
    have hopened : job'.gate.ensure world'.env.files r.archive = .ok job'.gate := by
      rw [ih]
      exact h.opened _
    have hjob := Job.run_job hopened r.args true
    rw [hjob, ih]

/-- The job of every run of the series is ready, too. -/
theorem Ready.series {r : Request} {job : Job β κ} (h : r.Ready job) (world : World β κ)
    (k : Nat) : r.Ready (r.series false job world k).job := by
  rw [series_job h world k]
  exact ⟨h.opened, h.archive, h.category⟩

/-- What the queue took of the runs up to that of a number. -/
def takenUpTo (r : Request) (job : Job β κ) (world : World β κ) (k : Nat) : List Item :=
  (List.range (k + 1)).flatMap fun k => (r.series false job world k).items

theorem takenUpTo_zero (r : Request) (job : Job β κ) (world : World β κ) :
    r.takenUpTo job world 0 = (r.series false job world 0).items := by
  unfold takenUpTo
  rw [List.range_one, List.flatMap_singleton]

theorem takenUpTo_succ (r : Request) (job : Job β κ) (world : World β κ) (k : Nat) :
    r.takenUpTo job world (k + 1) =
      r.takenUpTo job world k ++ (r.series false job world (k + 1)).items := by
  unfold takenUpTo
  rw [List.range_succ, List.flatMap_append, List.flatMap_singleton]

/-- The checkpoint after a run tells of all items taken so far, and of how many runs went on. -/
theorem series_checkpoint {r : Request} {job : Job β κ} (h : r.Ready job) (world : World β κ)
    (k : Nat) :
    (r.series false job world k).job.checkpoint =
      (job.checkpoint.resumed k).recordAll (r.takenUpTo job world k) := by
  induction k with
  | zero =>
    rw [takenUpTo_zero]
    exact (Job.run_checkpoint (h.opened _) r.args false).1
  | succ k ih =>
    obtain ⟨hcheckpoint, -⟩ := Job.run_checkpoint ((h.series world k).opened _) r.args true
    rw [takenUpTo_succ, Checkpoint.recordAll_append, series_succ, hcheckpoint]
    congr 1
    show (r.series false job world k).job.checkpoint.markResumed = _
    rw [ih, Checkpoint.markResumed_resumed]

/-- Each run but the first one counts as one that goes on. -/
theorem series_resumes {r : Request} {job : Job β κ} (h : r.Ready job) (world : World β κ)
    (k : Nat) : (r.series false job world k).job.checkpoint.resumes =
      Number.wrap Number.greatestUnsigned32 k := by
  rw [series_checkpoint h, Checkpoint.resumes_recordAll]
  rfl

/-- The items that the runs of a series took have their marks, and the checkpoint accounts for
    them and for the runs that went on. -/
theorem series_accounts {r : Request} {job : Job β κ} (h : r.Ready job) (world : World β κ)
    (k : Nat) :
    (r.series false job world k).job.checkpoint.Accounts (r.takenUpTo job world k) k := by
  have hmarked : ∀ i ∈ r.takenUpTo job world k, ∃ m, i.marks = .ok m := by
    induction k with
    | zero =>
      rw [takenUpTo_zero]
      exact (Job.run_checkpoint (h.opened _) r.args false).2
    | succ k ih =>
      obtain ⟨-, hrun⟩ := Job.run_checkpoint ((h.series world k).opened _) r.args true
      rw [takenUpTo_succ, series_succ]
      intro i hi
      rcases List.mem_append.mp hi with hi | hi
      · exact ih i hi
      · exact hrun i hi
  have hstart : (job.checkpoint.resumed k).Accounts [] k := ⟨by simp, rfl, rfl, rfl, rfl, rfl⟩
  simpa [series_checkpoint h] using hstart.recordAll hmarked

/-- The arguments with which a backend is asked for a run: first those of the caller, and then
    those with which to go on from the checkpoint of the run before. -/
def fetchArgs (r : Request) (job : Job β κ) (world : World β κ) : Nat → Fields
  | 0 => r.args
  | k + 1 => (r.series false job world k).job.checkpoint.resumeArgs r.args

/-- What a backend is asked with arguments: to fetch, or to replay the archive. -/
def call (r : Request) (args : Fields) : Call :=
  let archive := r.archive.map fun args => ⟨args.path⟩
  match Route.select r.archive with
  | .live => ⟨false, r.category, args, archive, none⟩
  | .replay after => ⟨true, r.category, args, archive, after⟩

/-- What a backend is asked up to a run. -/
def calls (r : Request) (job : Job β κ) (world : World β κ) (k : Nat) : List Call :=
  (List.range (k + 1)).map fun i => r.call (r.fetchArgs job world i)

theorem call_of_ready {r : Request} {job : Job β κ} (h : r.Ready job) (args : Fields) :
    job.gate.call job.category args r.archive = r.call args := by
  unfold Gate.call call
  rw [h.archive, h.category, Option.map_map]
  rfl

/-- Each run asks the backend exactly once, and watching it changes nothing. -/
theorem series_watched {r : Request} {job : Job β κ} (h : r.Ready job) (world : World β κ)
    (k : Nat) :
    r.series false job.watched (world.pair []) k =
      (r.series false job world k).watched (r.calls job world k) := by
  induction k with
  | zero =>
    show job.watched.run r.args r.archive false (world.pair []) = _
    rw [Job.run_watched (h.opened _), call_of_ready h]
    rfl
  | succ k ih =>
    have hready := h.series world k
    have hopened := hready.opened (r.series false job world k).world.env.files
    have hwatched := Job.run_watched hopened r.args true (r.calls job world k)
    rw [call_of_ready hready] at hwatched
    have hcalls : r.calls job world (k + 1) = r.calls job world k ++
        [r.call ((r.series false job world k).job.checkpoint.resumeArgs r.args)] := by
      unfold calls
      rw [List.range_succ, List.map_append]
      rfl
    rw [series_succ, ih, series_succ, hcalls]
    exact hwatched

/-- Going on from a checkpoint changes no argument but the date and the offset. -/
theorem get?_fetchArgs (r : Request) (job : Job β κ) (world : World β κ) (k : Nat) {name : String}
    (hdate : name ≠ dateArgument) (hoffset : name ≠ offsetArgument) :
    (r.fetchArgs job world k).get? name = r.args.get? name := by
  cases k with
  | zero => rfl
  | succ k =>
    exact Checkpoint.get?_resumeArgs _ r.args hdate hoffset

/-! ## The budget -/

/-- How executing a request ends with the run numbered `n`, counted from zero. -/
structure EndsWith (r : Request) (job : Job β κ) (world : World β κ) (n : Nat)
    (e : Execution β κ) : Prop where
  /-- There is always a run, and there are never more than the request has failures. -/
  within : n + 1 ≤ max 1 r.maxRetries
  single : job.backend.resuming = false → n = 0
  transient : ∀ k < n, ∃ error,
    (r.series false job world k).result = .error error ∧ error.isFatal = false
  earlier : ∀ k < n, ¬ RetryPolicy.Stops ⟨r.maxRetries, job.backend.resuming⟩ (k + 1)
    (r.series false job world k).result
  last : RetryPolicy.Stops ⟨r.maxRetries, job.backend.resuming⟩ (n + 1)
    (r.series false job world n).result
  result : e.result = (r.series false job world n).outcome
  /-- The failures that are counted are never more than the runs. -/
  failures : ∀ notice ∈ e.notices, ∀ told, notice.failures? = some told → told ≤ n + 1
  /-- The failures that a request may have are a number of thirty-two bits. The runs then are, too,
      and the checkpoint tells how many of them went on. -/
  fits : r.maxRetries ≤ Number.greatestUnsigned32 → n + 1 ≤ Number.greatestUnsigned32
  resumes : r.maxRetries ≤ Number.greatestUnsigned32 →
    (r.series false job world n).job.checkpoint.resumes = n

theorem execute_of_setUp {r : Request} {registry : Registry β} {queue : Queue κ}
    {fresh : String} {world : World β κ} {job : Job β κ}
    (hsetUp : r.setUp registry queue (r.jobId.getD fresh) world.env.files = .ok job)
    (harchiving : validateArchiving job.backend r.archive = .ok ()) :
    r.execute registry queue fresh world =
      r.attempts ⟨r.maxRetries, job.backend.resuming⟩ r.maxRetries 0 false job world := by
  unfold execute
  dsimp only
  rw [hsetUp]
  dsimp only
  rw [harchiving]

/-- Executing a request whose job is set up is a span of the series of the job. -/
theorem execute_eq_span {r : Request} {registry : Registry β} {queue : Queue κ}
    {fresh : String} {world : World β κ} {job : Job β κ}
    (hsetUp : r.setUp registry queue (r.jobId.getD fresh) world.env.files = .ok job)
    (harchiving : validateArchiving job.backend r.archive = .ok ()) :
    let policy : RetryPolicy := ⟨r.maxRetries, job.backend.resuming⟩
    ∃ n, (∀ k < n, policy.GoesOn k (r.series false job world k).result) ∧
      ¬ policy.GoesOn n (r.series false job world n).result ∧
      r.execute registry queue fresh world =
        r.span policy 0 (r.series false job world) n := by
  intro policy
  have hspan := r.attempts_eq_span policy r.maxRetries 0 false job world (Nat.le_add_left _ _)
  obtain ⟨n, hgoes, hstop, hattempts⟩ := hspan
  refine ⟨n, ?_, ?_, (execute_of_setUp hsetUp harchiving).trans hattempts⟩
  · intro k hk
    have hk' := hgoes k hk
    rw [Nat.zero_add] at hk'
    exact hk'
  · rw [Nat.zero_add] at hstop
    exact hstop

/-- Executing a request does the same whether its backend is watched or not, and the calls are
    those of the runs up to the first after which there is no other. -/
theorem execute_watched {r : Request} {registry : Registry β} {queue : Queue κ} {fresh : String}
    {world : World β κ} {job : Job β κ}
    (hsetUp : r.setUp registry queue (r.jobId.getD fresh) world.env.files = .ok job)
    (harchiving : validateArchiving job.backend r.archive = .ok ()) :
    ∃ n, r.execute registry queue fresh world =
        r.span ⟨r.maxRetries, job.backend.resuming⟩ 0 (r.series false job world) n ∧
      r.execute registry.watched queue fresh (world.pair []) =
        (r.execute registry queue fresh world).watched (r.calls job world n) := by
  obtain ⟨n, hgoes, hstop, hexecute⟩ := execute_eq_span hsetUp harchiving
  have hwatched : r.setUp registry.watched queue (r.jobId.getD fresh)
      (world.pair ([] : List Call)).env.files = .ok job.watched := setUp_watched hsetUp
  have hseries : r.series false job.watched (world.pair []) =
      fun k => (r.series false job world k).watched (r.calls job world k) :=
    funext fun k => series_watched (ready_of_setUp hsetUp) world k
  obtain ⟨m, hgoes', hstop', hexecute'⟩ := execute_eq_span hwatched harchiving
  rw [hseries] at hgoes' hstop' hexecute'
  -- The watched runs come to the same, so that the series stops at the same run.
  have hmn : m = n := RetryPolicy.stop_unique hgoes' hstop' hgoes hstop
  refine ⟨n, hexecute, ?_⟩
  rw [hexecute', hexecute, span_watched, hmn]
  rfl

/-- A job that may fail twice, and fails once with an error that is worth another run, comes to
    what its first two runs come to if the second one ends well. -/
theorem execute_of_second {r : Request} {registry : Registry β} {queue : Queue κ}
    {fresh : String} {world : World β κ} {job : Job β κ}
    (hsetUp : r.setUp registry queue (r.jobId.getD fresh) world.env.files = .ok job)
    (harchiving : validateArchiving job.backend r.archive = .ok ())
    (hresuming : job.backend.resuming = true) (hretries : r.maxRetries = 2) {e : JobError}
    (hfirst : (r.series false job world 0).result = .error e) (hfatal : e.isFatal = false)
    (hsecond : (r.series false job world 1).result = .ok ()) :
    (∃ c, (r.execute registry queue fresh world).result = .ok c) ∧
      (r.execute registry queue fresh world).items = r.takenUpTo job world 1 := by
  obtain ⟨n, hgoes, hstop, hspan⟩ := execute_eq_span hsetUp harchiving
  have hgoes' : ∀ k < 1, RetryPolicy.GoesOn ⟨r.maxRetries, job.backend.resuming⟩ k
      (r.series false job world k).result := by
    intro k hk
    rw [Nat.lt_one_iff.mp hk]
    exact ⟨hresuming, by show 0 + 1 < r.maxRetries; omega, e, hfirst, hfatal⟩
  have hstop' : ¬ RetryPolicy.GoesOn ⟨r.maxRetries, job.backend.resuming⟩ 1
      (r.series false job world 1).result := by
    rintro ⟨-, -, error, herror, -⟩
    rw [hsecond] at herror
    cases herror
  have hn : n = 1 := RetryPolicy.stop_unique hgoes hstop hgoes' hstop'
  rw [hn] at hspan
  rw [hspan, span_result, span_items]
  refine ⟨⟨(r.series false job world 1).job.checkpoint, ?_⟩, rfl⟩
  unfold Run.outcome
  rw [hsecond]

end Request

/-- Executing a request whose job is set up ends with one of the runs that its budget allows,
    the first one after which there is no other. Each of the runs asks the backend exactly once
    and always along the same route, first with the arguments of the request, and then with
    those to go on from the checkpoint of the run before, which differ in the date and the
    offset only. -/
theorem execute_within_budget {β κ : Type} {r : Request} {registry : Registry β}
    {queue : Queue κ} {fresh : String} {world : World β κ} {job : Job β κ}
    (hsetUp : r.setUp registry queue (r.jobId.getD fresh) world.env.files = .ok job)
    (harchiving : validateArchiving job.backend r.archive = .ok ()) :
    ∃ n, r.EndsWith job world n (r.execute registry queue fresh world) ∧
      r.execute registry.watched queue fresh (world.pair []) =
        (r.execute registry queue fresh world).watched (r.calls job world n) ∧
      ∀ k name, name ≠ dateArgument → name ≠ offsetArgument →
        (r.fetchArgs job world k).get? name = r.args.get? name := by
  have hready := Request.ready_of_setUp hsetUp
  obtain ⟨n, hgoes, hstop, hexecute⟩ := Request.execute_eq_span hsetUp harchiving
  have hwithin : n + 1 ≤ max 1 r.maxRetries := RetryPolicy.within_of_goesOn hgoes
  have hfits : r.maxRetries ≤ Number.greatestUnsigned32 → n + 1 ≤ Number.greatestUnsigned32 := by
    intro hfits
    have hpos : 1 ≤ Number.greatestUnsigned32 := by decide
    omega
  refine ⟨n, ?_, ?_, fun k name hdate hoffset => r.get?_fetchArgs job world k hdate hoffset⟩
  · rw [hexecute]
    constructor
    · exact hwithin
    · intro hresuming
      cases n with
      | zero => rfl
      | succ n =>
        obtain ⟨hresumable, -, -⟩ := hgoes 0 (Nat.zero_lt_succ n)
        rw [hresuming] at hresumable
        cases hresumable
    · intro k hk
      obtain ⟨-, -, e, hresult, htransient⟩ := hgoes k hk
      exact ⟨e, hresult, htransient⟩
    · intro k hk hstops
      have hbudget : k + 1 ≤ max 1 r.maxRetries := by omega
      exact (RetryPolicy.stops_iff_not_goesOn hbudget _).mp hstops (hgoes k hk)
    · exact (RetryPolicy.stops_iff_not_goesOn hwithin _).mpr hstop
    · exact r.span_result _ 0 _ n
    · have hfailures := r.span_failures ⟨r.maxRetries, job.backend.resuming⟩ 0
        (r.series false job world) n
      rw [Nat.zero_add] at hfailures
      exact hfailures
    · exact hfits
    · intro hretries
      rw [Request.series_resumes hready]
      exact Number.wrap_of_le (Nat.le_of_succ_le (hfits hretries))
  · -- The watched execution is a span of the watched series, which stops at the same run.
    have hsetUp' : r.setUp registry.watched queue (r.jobId.getD fresh)
        (world.pair ([] : List Call)).env.files = .ok job.watched := Request.setUp_watched hsetUp
    have hseries : r.series false job.watched (world.pair []) =
        fun k => (r.series false job world k).watched (r.calls job world k) :=
      funext fun k => Request.series_watched hready world k
    obtain ⟨m, hgoes', hstop', hexecute'⟩ := Request.execute_eq_span hsetUp' harchiving
    rw [hseries] at hgoes' hstop' hexecute'
    have hmn : m = n := RetryPolicy.stop_unique hgoes' hstop' hgoes hstop
    rw [hexecute', hexecute, Request.span_watched, hmn]
    rfl

/-- A request for a backend that fails at first. -/
def failsAtFirst : Request :=
  { Request.make "task" "feed" "item" with jobId := some "job", maxRetries := 2 }

/-- The world of a script whose first entry fails. -/
def failingScript : World Scripted.Play Memory :=
  ⟨⟨⟨[], []⟩, ⟨fun _ => ⟨0, 0⟩, 0⟩, ⟨[.fails (.io "gone")], .gives [], []⟩⟩, .empty⟩

/-- The backend fails at first, and the second run ends well. -/
theorem within_budget_after_failure :
    let registry : Registry Scripted.Play := ⟨[Scripted.backend ⟨"feed", ["item"], false, true⟩]⟩
    ∃ job, failsAtFirst.setUp registry Queue.memory "job" failingScript.env.files = .ok job ∧
      validateArchiving job.backend failsAtFirst.archive = .ok () ∧
      ∃ n, failsAtFirst.EndsWith job failingScript n
        (failsAtFirst.execute registry Queue.memory "other" failingScript) := by
  intro registry
  have hsetUp : failsAtFirst.setUp registry Queue.memory (failsAtFirst.jobId.getD "other")
      failingScript.env.files = .ok ⟨"job", "task", "item",
        Scripted.backend ⟨"feed", ["item"], false, true⟩, Queue.memory, "items", .shut,
        .start "job" "task" "feed" "item"⟩ := rfl
  obtain ⟨n, hends, -, -⟩ := execute_within_budget hsetUp rfl
  exact ⟨_, hsetUp, rfl, n, hends⟩

end Harvest
