/-
  Harvest.Proofs.Job.Samples

  What is counted of a job. Executing a request counts one sample for each item that the queue
  took, one for each run that went on from an earlier one, and one for the end of the job, all
  under the backend and the category of the request. A run counts its own items and leaves the
  rest to the runs after it (`span_samples`), so that the samples of an execution are, up to
  their order, those that its result calls for (`execute_accounted`). The queue of the job may
  keep a log of its pushes, which then grows by as many entries as there are items in the
  checkpoint (`execute_logged`, `samples_agree_with_result`).
-/
import Harvest.Proofs.Job.Attempts

namespace Harvest

/-! ## Samples of a job -/

/-- The backend and the category under which something is counted, if it is under any. -/
def Sample.labels? : Sample → Option (String × String)
  | .itemForwarded backend category => some (backend, category)
  | .jobResumed backend category => some (backend, category)
  | .jobCompleted backend category => some (backend, category)
  | .jobFailed backend category => some (backend, category)
  | .jobTimed _ => none

/-- The checkpoint that a job ends with: the one that it returns, or the one that is attached to
    its failure, if there is one. -/
def checkpointOf : Except Failure Checkpoint → Option Checkpoint
  | .ok c => some c
  | .error f => f.checkpoint

@[simp] theorem checkpointOf_ok (c : Checkpoint) : checkpointOf (.ok c) = some c := rfl

@[simp] theorem checkpointOf_error (f : Failure) : checkpointOf (.error f) = f.checkpoint := rfl

@[simp] theorem checkpointOf_outcome {β κ : Type} (run : Run β κ) :
    checkpointOf run.outcome = some run.job.checkpoint := by
  obtain ⟨result, job, items, world⟩ := run
  cases result <;> simp [Run.outcome]

@[simp] theorem Run.isOk_outcome {β κ : Type} (run : Run β κ) :
    run.outcome.isOk = run.result.isOk := by
  obtain ⟨result, job, items, world⟩ := run
  cases result <;> rfl

namespace Request

/-- What is counted of a job with so many items and so many runs that went on, which ended well
    or did not. -/
def account (r : Request) (completed : Bool) (items resumes : Nat) : List Sample :=
  List.replicate items (.itemForwarded r.backend r.category) ++
    (List.replicate resumes (.jobResumed r.backend r.category) ++
      [if completed then .jobCompleted r.backend r.category
        else .jobFailed r.backend r.category, .jobTimed completed])

/-- A run with so many items after which there is another one adds to the account. -/
theorem account_after (r : Request) (completed : Bool) (items more resumes : Nat) :
    ((List.replicate items (Sample.itemForwarded r.backend r.category) ++
      [Sample.jobResumed r.backend r.category]) ++ r.account completed more resumes).Perm
        (r.account completed (items + more) (resumes + 1)) := by
  -- Only items and runs that went on are on both sides: the end of the job stays where it is.
  rw [List.perm_iff_count]
  intro s
  simp only [account, List.count_append, List.count_replicate, List.count_singleton, beq_iff_eq]
  by_cases hitem : Sample.itemForwarded r.backend r.category = s
  · subst hitem
    simp
    omega
  · by_cases hresumed : Sample.jobResumed r.backend r.category = s
    · subst hresumed
      simp
      omega
    · simp [hitem, hresumed]

variable {β κ : Type}

/-- The samples of items do not tell them apart. -/
theorem forwardedSamples_eq {r : Request} {job : Job β κ}
    (hbackend : job.checkpoint.backend = r.backend) (hcategory : job.category = r.category)
    (items : List Item) :
    forwardedSamples job items =
      List.replicate items.length (.itemForwarded r.backend r.category) := by
  rw [forwardedSamples, hbackend, hcategory, List.map_const']

/-! ## Samples of a span -/

/-- What the last run of a job counts. -/
theorem finished_samples {r : Request} {run : Run β κ}
    (hbackend : run.job.checkpoint.backend = r.backend) (hcategory : run.job.category = r.category)
    (policy : RetryPolicy) (failures : Nat) :
    (r.finished policy failures run).samples =
      r.account run.result.isOk run.items.length 0 := by
  obtain ⟨result, job, items, world⟩ := run
  have hforwarded := forwardedSamples_eq hbackend hcategory items
  cases result with
  | ok u => simp [finished, completed, Execution.after, account, hforwarded, Except.isOk,
      Except.toBool]
  | error e => simp [finished, cancelled, failureSamples, Execution.after, account, hforwarded,
      Except.isOk, Except.toBool]

/-- Some runs of a job count their items, the runs among them that went on, and its end. -/
theorem span_samples (r : Request) (policy : RetryPolicy) (failures : Nat)
    (runs : Nat → Run β κ) (n : Nat)
    (hruns : ∀ k, (runs k).job.checkpoint.backend = r.backend ∧
      (runs k).job.category = r.category) :
    (r.span policy failures runs n).samples.Perm
      (r.account (runs n).result.isOk (r.span policy failures runs n).items.length n) := by
  -- The runs behind the first one are a span of their own, with one more failure.
  induction n generalizing failures runs with
  | zero =>
    obtain ⟨hbackend, hcategory⟩ := hruns 0
    have hsamples : (r.span policy failures runs 0).samples = _ :=
      finished_samples hbackend hcategory policy failures
    rw [hsamples, span_items]
    simp
  | succ n ih =>
    obtain ⟨hbackend, hcategory⟩ := hruns 0
    have hrest := ih (failures + 1) (fun k => runs (k + 1)) fun k => hruns (k + 1)
    simp only [span, Execution.after, forwardedSamples_eq hbackend hcategory,
      List.length_append]
    exact (hrest.append_left _).trans (r.account_after ..)

/-! ## Samples of an execution -/

/-- Whose checkpoint it is never changes in the runs of a series. -/
theorem series_origin {r : Request} {registry : Registry β} {queue : Queue κ} {jobId : String}
    {files : FileTree} {job : Job β κ} (h : r.setUp registry queue jobId files = .ok job)
    (world : World β κ) (k : Nat) :
    (r.series false job world k).job.checkpoint.reset =
      .start jobId r.taskId r.backend r.category := by
  have hready := ready_of_setUp h
  obtain ⟨backend, gate, -, -, rfl⟩ := setUp_eq_ok h
  rw [series_checkpoint hready, Checkpoint.reset_recordAll]
  rfl

/-- The end of a job that is never run. -/
theorem execute_refused (r : Request) {registry : Registry β} {queue : Queue κ} {fresh : String}
    (world : World β κ)
    (h : ∀ job, r.setUp registry queue (r.jobId.getD fresh) world.env.files = .ok job →
      validateArchiving job.backend r.archive ≠ .ok ()) :
    ∃ error checkpoint notices,
      r.execute registry queue fresh world =
        ⟨.error ⟨error, checkpoint⟩, notices, r.failureSamples, [], world⟩ ∧
      ∀ c, checkpoint = some c →
        c = .start (r.jobId.getD fresh) r.taskId r.backend r.category := by
  rw [execute.eq_def]
  dsimp only
  cases hsetUp : r.setUp registry queue (r.jobId.getD fresh) world.env.files with
  | error error => exact ⟨error, none, _, rfl, fun c hc => nomatch hc⟩
  | ok job =>
    cases harchiving : validateArchiving job.backend r.archive with
    | ok u => exact absurd harchiving (h job hsetUp)
    | error error =>
      refine ⟨error, some job.checkpoint, [], by simp [harchiving], ?_⟩
      rintro c ⟨⟩
      obtain ⟨backend, gate, -, -, rfl⟩ := setUp_eq_ok hsetUp
      rfl

/-- An execution that took so many runs which went on from an earlier one tells of them: its
    samples are those that its result calls for, and the checkpoint that it ends with is that of
    the job and accounts for the items that the queue took. Without a checkpoint there are none. -/
structure Accounted (r : Request) (jobId : String) (e : Execution β κ) (resumes : Nat) :
    Prop where
  samples : e.samples.Perm (r.account e.result.isOk e.items.length resumes)
  fits : r.maxRetries ≤ Number.greatestUnsigned32 → resumes ≤ Number.greatestUnsigned32
  none : checkpointOf e.result = none → e.items = [] ∧ resumes = 0
  some : ∀ c, checkpointOf e.result = some c → c.Accounts e.items resumes ∧
    c.reset = .start jobId r.taskId r.backend r.category

/-- Executing a request tells of the runs that it took. -/
theorem execute_accounted (r : Request) (registry : Registry β) (queue : Queue κ)
    (fresh : String) (world : World β κ) :
    ∃ resumes, r.Accounted (r.jobId.getD fresh) (r.execute registry queue fresh world)
      resumes := by
  by_cases hruns : ∃ job, r.setUp registry queue (r.jobId.getD fresh) world.env.files = .ok job ∧
      validateArchiving job.backend r.archive = .ok ()
  · obtain ⟨job, hsetUp, harchiving⟩ := hruns
    have hready := ready_of_setUp hsetUp
    obtain ⟨n, hgoes, -, hspan⟩ := execute_eq_span hsetUp harchiving
    have hsamples := r.span_samples ⟨r.maxRetries, job.backend.resuming⟩ 0
      (r.series false job world) n fun k =>
        ⟨congrArg Checkpoint.backend (series_origin hsetUp world k),
          (hready.series world k).category⟩
    have hitems : (r.execute registry queue fresh world).items = r.takenUpTo job world n := by
      rw [hspan, span_items]
      rfl
    refine ⟨n, ?_, ?_, ?_, ?_⟩
    · rw [hspan, span_result, Run.isOk_outcome]
      exact hsamples
    · intro hfits
      have hwithin : n + 1 ≤ max 1 r.maxRetries := RetryPolicy.within_of_goesOn hgoes
      omega
    · rw [hspan, span_result, checkpointOf_outcome]
      intro h
      cases h
    · rw [hitems, hspan, span_result, checkpointOf_outcome]
      rintro c ⟨⟩
      exact ⟨series_accounts hready world n, series_origin hsetUp world n⟩
  · -- A checkpoint that is attached is the one that the job starts with.
    obtain ⟨error, checkpoint, notices, he, hstart⟩ :=
      r.execute_refused world fun job hjob h => hruns ⟨job, hjob, h⟩
    refine ⟨0, ?_, fun _ => Nat.zero_le _, ?_, ?_⟩
    · rw [he]
      simp [account, failureSamples, Except.isOk, Except.toBool]
    · rw [he]
      exact fun _ => ⟨rfl, rfl⟩
    · rw [he]
      intro c hc
      have hreset := Checkpoint.Accounts.reset c
      rw [hstart c hc] at hreset ⊢
      exact ⟨hreset, rfl⟩

/-! ## Pushes of an execution -/

/-- Setting up a job does the same whether its queue keeps a log or not. -/
theorem setUp_logged (r : Request) (registry : Registry β) (queue : Queue κ) (jobId : String)
    (files : FileTree) :
    r.setUp registry queue.logged jobId files =
      (r.setUp registry queue jobId files).map Job.logged := by
  simp only [setUp, Job.create]
  cases r.validate with
  | error f => rfl
  | ok u =>
    cases registry.find? r.backend with
    | none => rfl
    | some backend =>
      simp only [Job.withArchive]
      cases Gate.openFor files r.archive <;> rfl

end Request

/-- The execution, whose queue kept a log. -/
def Execution.logged {β κ : Type} (e : Execution β κ) (log : List (String × Bytes)) :
    Execution β (κ × List (String × Bytes)) :=
  ⟨e.result, e.notices, e.samples, e.items, e.world.env, e.world.queue, log⟩

namespace Request

variable {β κ : Type}

/-- The last run of a job ends it in the same way whether its queue kept a log or not. -/
theorem finished_logged (r : Request) (policy : RetryPolicy) (failures : Nat) (run : Run β κ)
    (log : List (String × Bytes)) :
    r.finished policy failures ⟨run.result, run.job.logged, run.items, run.world.env,
        run.world.queue, log⟩ =
      (r.finished policy failures run).logged log := by
  obtain ⟨result, job, items, world⟩ := run
  cases result <;> rfl

theorem items_finished (r : Request) (policy : RetryPolicy) (failures : Nat) (run : Run β κ) :
    (r.finished policy failures run).items = run.items := by
  obtain ⟨result, job, items, world⟩ := run
  cases result <;> simp [finished, completed, cancelled, Execution.after]

theorem attempts_logged_of_stop {r : Request} {policy : RetryPolicy} {failures : Nat}
    {resume : Bool} {job : Job β κ} {env : Env β} {own : κ}
    (h : ¬ policy.GoesOn failures (job.run r.args r.archive resume ⟨env, own⟩).result)
    (spare : Nat) (log : List (String × Bytes)) :
    let plain := r.attempts policy spare failures resume job ⟨env, own⟩
    r.attempts policy spare failures resume job.logged ⟨env, own, log⟩ =
      plain.logged (log ++ plain.items.map fun i => (job.queueName, i.bytes)) := by
  have hlogged := job.run_logged r.args r.archive resume env own log
  have h' : ¬ policy.GoesOn failures
      (job.logged.run r.args r.archive resume ⟨env, own, log⟩).result := by
    rw [hlogged]
    exact h
  dsimp only
  rw [attempts_of_stop h, attempts_of_stop h', hlogged, finished_logged, items_finished]

/-- The items that the runs of a job take are those whose payloads the queue appended under its
    name, in the order in which it did. -/
theorem attempts_logged (r : Request) (policy : RetryPolicy) (spare failures : Nat)
    (resume : Bool) (job : Job β κ) (env : Env β) (own : κ) (log : List (String × Bytes))
    (hspare : policy.maxRetries ≤ failures + spare) :
    let plain := r.attempts policy spare failures resume job ⟨env, own⟩
    r.attempts policy spare failures resume job.logged ⟨env, own, log⟩ =
      plain.logged (log ++ plain.items.map fun i => (job.queueName, i.bytes)) := by
  -- Behind each run the log is that of the runs so far, from which the next one goes on.
  induction spare generalizing failures resume job env own log with
  | zero =>
    have hstop : ¬ policy.GoesOn failures
        (job.run r.args r.archive resume ⟨env, own⟩).result := by
      rintro ⟨-, hless, -⟩
      omega
    exact attempts_logged_of_stop hstop 0 log
  | succ spare ih =>
    by_cases hgo : policy.GoesOn failures (job.run r.args r.archive resume ⟨env, own⟩).result
    · have hlogged := job.run_logged r.args r.archive resume env own log
      have hgo' : policy.GoesOn failures
          (job.logged.run r.args r.archive resume ⟨env, own, log⟩).result := by
        rw [hlogged]
        exact hgo
      rw [attempts_of_goesOn hgo, attempts_of_goesOn hgo', hlogged]
      dsimp only
      rw [ih _ _ _ _ _ _ (by omega), job.run_queueName]
      simp [Execution.after, Execution.logged, forwardedSamples, Job.logged]
    · exact attempts_logged_of_stop hgo (spare + 1) log

/-- The items that executing a request takes are those whose payloads the queue appended under
    the name that the request gives it, and keeping a log of them changes nothing. -/
theorem execute_logged (r : Request) (registry : Registry β) (queue : Queue κ) (fresh : String)
    (env : Env β) (own : κ) (log : List (String × Bytes)) :
    let plain := r.execute registry queue fresh ⟨env, own⟩
    r.execute registry queue.logged fresh ⟨env, own, log⟩ =
      plain.logged (log ++ plain.items.map fun i => (r.queue, i.bytes)) := by
  dsimp only
  rw [execute.eq_def, execute.eq_def]
  dsimp only
  rw [setUp_logged]
  cases hsetUp : r.setUp registry queue (r.jobId.getD fresh) env.files with
  | error e => simp [Except.map, Execution.logged]
  | ok job =>
    have hname : job.queueName = r.queue := by
      obtain ⟨backend, gate, -, -, rfl⟩ := setUp_eq_ok hsetUp
      rfl
    dsimp only [Except.map]
    rw [show job.logged.backend = job.backend from rfl]
    cases validateArchiving job.backend r.archive with
    | error e => simp [Execution.logged, Job.logged]
    | ok u =>
      rw [← hname]
      exact attempts_logged r _ _ _ _ _ _ _ _ (Nat.le_add_left ..)

end Request

/-- The samples tell of one job with a backend and a category, and agree with its result, which
    counts items in sixty-four bits and runs in thirty-two. -/
structure Sample.Tell (samples : List Sample) (backend category : String)
    (result : Except Failure Checkpoint) : Prop where
  /-- Nothing is counted under other labels. -/
  labelled : ∀ s ∈ samples, ∀ labels, s.labels? = some labels → labels = (backend, category)
  completed : samples.count (.jobCompleted backend category) = if result.isOk then 1 else 0
  failed : samples.count (.jobFailed backend category) = if result.isOk then 0 else 1
  resumed : (checkpointOf result).elim 0 Checkpoint.resumes =
    Number.wrap Number.greatestUnsigned32 (samples.count (.jobResumed backend category))
  forwarded : (checkpointOf result).elim 0 Checkpoint.items =
    Number.wrap Number.greatestUnsigned64 (samples.count (.itemForwarded backend category))

namespace Request.Accounted

variable {β κ : Type} {r : Request} {jobId : String} {e : Execution β κ} {resumes : Nat}

theorem count_itemForwarded (h : r.Accounted jobId e resumes) :
    e.samples.count (.itemForwarded r.backend r.category) = e.items.length := by
  rw [h.samples.count_eq]
  simp only [account, List.count_append, List.count_replicate]
  cases e.result.isOk <;> simp

theorem count_jobResumed (h : r.Accounted jobId e resumes) :
    e.samples.count (.jobResumed r.backend r.category) = resumes := by
  rw [h.samples.count_eq]
  simp only [account, List.count_append, List.count_replicate]
  cases e.result.isOk <;> simp

/-- The counts of a checkpoint are those of the account, in their bits. -/
theorem counts (h : r.Accounted jobId e resumes) :
    (checkpointOf e.result).elim 0 Checkpoint.items =
        Number.wrap Number.greatestUnsigned64 e.items.length ∧
      (checkpointOf e.result).elim 0 Checkpoint.resumes =
        Number.wrap Number.greatestUnsigned32 resumes := by
  cases hc : checkpointOf e.result with
  | none =>
    obtain ⟨hitems, hresumes⟩ := h.none hc
    rw [hitems, hresumes]
    exact ⟨rfl, rfl⟩
  | some c =>
    obtain ⟨haccounts, -⟩ := h.some c hc
    exact ⟨haccounts.items, haccounts.resumes⟩

/-- The samples that a result calls for tell of it. -/
theorem tell (h : r.Accounted jobId e resumes) :
    Sample.Tell e.samples r.backend r.category e.result := by
  obtain ⟨hitems, hresumes⟩ := h.counts
  constructor
  case labelled =>
    intro s hs labels hlabels
    have hs := h.samples.mem_iff.mp hs
    simp only [account, List.mem_append, List.mem_replicate, List.mem_cons, List.not_mem_nil,
      or_false] at hs
    rcases hs with ⟨-, rfl⟩ | ⟨-, rfl⟩ | rfl | rfl
    · simpa [Sample.labels?] using hlabels.symm
    · simpa [Sample.labels?] using hlabels.symm
    · split at hlabels <;> simpa [Sample.labels?] using hlabels.symm
    · simp [Sample.labels?] at hlabels
  case resumed => rw [h.count_jobResumed, hresumes]
  case forwarded => rw [h.count_itemForwarded, hitems]
  all_goals
    rw [h.samples.count_eq]
    simp only [account, List.count_append, List.count_replicate]
    cases e.result.isOk <;> simp

end Request.Accounted

/-- Whatever the request, the backends and the queue do, executing the request counts exactly one
    end of a job, which is completed exactly if the result is a checkpoint; as many runs that
    went on and as many items as the checkpoint tells that is returned or attached, and none
    without a checkpoint; and all of that under the backend and the category of the request. So
    many payloads, and no others, does the queue append, which one sees if it keeps a log. The
    counts of the checkpoint are whole, for a request whose limit fits thirty-two bits has no more
    runs than that, and the items would have to be more than sixty-four bits can tell. -/
theorem samples_agree_with_result {β κ : Type} (r : Request) (registry : Registry β)
    (queue : Queue κ) (fresh : String) (world : World β κ) :
    let e := r.execute registry queue fresh world
    Sample.Tell e.samples r.backend r.category e.result ∧
      (r.maxRetries ≤ Number.greatestUnsigned32 →
        e.samples.count (.jobResumed r.backend r.category) =
          (checkpointOf e.result).elim 0 Checkpoint.resumes) ∧
      ∀ log, ∃ pushed : List Bytes,
        r.execute registry queue.logged fresh ⟨world.env, world.queue, log⟩ =
          e.logged (log ++ pushed.map fun payload => (r.queue, payload)) ∧
        e.samples.count (.itemForwarded r.backend r.category) = pushed.length ∧
        (pushed.length ≤ Number.greatestUnsigned64 →
          pushed.length = (checkpointOf e.result).elim 0 Checkpoint.items) := by
  intro e
  obtain ⟨resumes, haccounted⟩ := r.execute_accounted registry queue fresh world
  obtain ⟨hitems, hresumes⟩ := haccounted.counts
  refine ⟨haccounted.tell, ?_, ?_⟩
  · intro hfits
    rw [haccounted.count_jobResumed, hresumes, Number.wrap_of_le (haccounted.fits hfits)]
  · intro log
    refine ⟨e.items.map Item.bytes, ?_, ?_, ?_⟩
    · rw [List.map_map]
      exact r.execute_logged registry queue fresh world.env world.queue log
    · rw [List.length_map]
      exact haccounted.count_itemForwarded
    · rw [List.length_map]
      intro hfits
      rw [hitems, Number.wrap_of_le hfits]

end Harvest
