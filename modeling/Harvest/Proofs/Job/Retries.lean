/-
  Harvest.Proofs.Job.Retries

  What all runs of a request take together. The records of a source that stays what it is are
  taken in their order and none of them twice, whatever the queue or the archive refuses: the
  runs so far have passed some of the records, down to the last one taken, and the next run
  takes some of the rest (`series_progress`). So what is taken in the end is a part of what one
  run takes that nothing interrupts (`execute_takes_in_order`).
-/
import Harvest.Proofs.Job.NextRun

namespace Harvest

/-- Tagging an item makes no difference to whether it is passed over. -/
theorem Filters.skipsItem_tagged (f : Filters) (i : Item) (job : String) :
    f.skipsItem (i.tagged job) = f.skipsItem i := by
  unfold skipsItem
  rw [Item.updated?_tagged]

theorem Filters.Wants.tagged {f : Filters} {i : Item} (h : f.Wants i) (job : String) :
    f.Wants (i.tagged job) := by
  obtain ⟨hitem, line, hoffset, hline⟩ := h
  refine ⟨?_, line, ?_, hline⟩
  · rw [skipsItem_tagged, hitem]
  · rw [Item.offset?_tagged, hoffset]

namespace Request

/-! ## The run that nothing interrupts -/

section

variable {β : Type}

/-- A job for a request with a queue that refuses nothing, and without an archive that could. -/
def plainJob (r : Request) (fresh : String) : Job β Memory where
  jobId := r.jobId.getD fresh
  taskId := r.taskId
  category := r.category
  backend := Lines.backend
  queue := Queue.memory
  queueName := r.queue
  gate := .shut
  checkpoint := .start (r.jobId.getD fresh) r.taskId r.backend r.category

/-- One run for a request, which nothing interrupts but an error of its source. -/
def uninterrupted (r : Request) (fresh : String) (env : Env β) : Run β Memory :=
  (r.plainJob fresh).run r.args none false ⟨env, .empty⟩

/-- The uninterrupted run takes all records that are wanted, up to the first error. -/
theorem uninterrupted_records {r : Request} {source : Source} {filters : Filters}
    (hreads : r.ReadsRecords source filters)
    (fresh : String) {env : Env β} (hsource : source.In env.files) :
    (r.uninterrupted fresh env).items =
        (goods (source.records filters)).map (fun i => i.tagged (r.jobId.getD fresh)) ∧
      (r.uninterrupted fresh env).result = ending (source.records filters) := by
  -- The run is one for the request without its archive.
  have hplain : ({ r with archive := none } : Request).ReadsRecords source filters :=
    ⟨hreads.category, rfl, hreads.path, hreads.filters⟩
  have hjob : ({ r with archive := none } : Request).JobFor Lines.backend Queue.memory
      (r.plainJob fresh : Job β Memory) := ⟨⟨fun _ => rfl, rfl, rfl⟩, rfl, rfl, rfl⟩
  have hkeeps : ({ r with archive := none } : Request).Keeps Queue.memory ⟨env.files, .empty⟩
      source := keeps_of_files (fun _ _ _ => rfl) rfl hsource
  have hfirst : ({ r with archive := none } : Request).Reaches Queue.memory ⟨env.files, .empty⟩
      (⟨env, .empty⟩ : World β Memory).store := .first
  have hf : Filters.ofArgs ((r.plainJob fresh : Job β Memory).runArgs r.args false) =
      .ok filters := hreads.filters
  exact run_accepted (Lines.backend_reads .sound) hplain hkeeps hjob hfirst hf rfl fun _ _ _ => rfl

end

/-! ## The runs of a series -/

section

variable {β κ : Type} {r : Request} {b : Backend β} {queue : Queue κ} {job : Job β κ}

/-- Each run of the series is one of a job for the request. -/
theorem JobFor.series (hj : r.JobFor b queue job) (world : World β κ) (k : Nat) :
    r.JobFor b queue (r.series false job world k).job ∧
      (r.series false job world k).job.jobId = job.jobId := by
  have hjob := series_job hj.ready world k
  rw [hjob]
  exact ⟨⟨⟨hj.ready.opened, hj.ready.archive, hj.ready.category⟩, hj.backend, hj.queue, hj.name⟩,
    rfl⟩

/-- The arguments of the next run are those to go on with behind the items taken so far. -/
theorem series_runArgs (hj : r.Ready job) (world : World β κ) (k : Nat) {taken : List Item}
    {name : String} (htaken : r.takenUpTo job world k = taken.map fun i => i.tagged name) :
    (r.series false job world k).job.runArgs r.args true =
      ((job.checkpoint.resumed (k + 1)).recordAll taken).resumeArgs r.args := by
  show (r.series false job world k).job.checkpoint.markResumed.resumeArgs r.args = _
  rw [series_checkpoint hj, Checkpoint.markResumed_resumed, htaken, Checkpoint.recordAll_tagged]

end

/-! ## Going on behind what was taken -/

section

variable {β κ : Type} {r : Request} {b : Backend β} {queue : Queue κ} {source : Source}
  {filters : Filters} {job : Job β κ} {world : World β κ}

/-- How far the runs up to one have come: of the records that are wanted, the queue took some
    and passed others, and the rest is left. -/
structure Progress (r : Request) (queue : Queue κ) (source : Source) (filters : Filters)
    (job : Job β κ) (world : World β κ) (k : Nat) (taken rest : List Item) : Prop where
  reaches : r.Reaches queue world.store (r.series false job world k).world.store
  leaves : Leaves (goods (source.records filters)) taken rest
  items : r.takenUpTo job world k = taken.map fun i => i.tagged job.jobId

variable (hb : b.ReadsSources) (hreads : r.ReadsRecords source filters)
  (hj : r.JobFor b queue job)

include hb hreads hj

/-- Behind items behind which no run can go on, the next run takes nothing and ends with an
    error of its arguments. -/
theorem next_refused {k : Nat} {taken rest : List Item}
    (h : r.Progress queue source filters job world k taken rest)
    (hstuck : ¬ Item.CanGoOn taken) :
    (r.series false job world (k + 1)).items = [] ∧
      (r.series false job world (k + 1)).world = (r.series false job world k).world ∧
      ∃ words, (r.series false job world (k + 1)).result =
        .error (.backend (.invalidArgument words)) := by
  obtain ⟨hj', -⟩ := hj.series world k
  have hargs := series_runArgs hj.ready world k h.items
  obtain ⟨words, hrefused⟩ := Source.resumeArgs_refused
    (c := job.checkpoint.resumed (k + 1)) rfl hstuck r.args
  rw [← hargs] at hrefused
  obtain ⟨hitems, hworld, hresult⟩ := run_records_refused hb hreads hj'
    (r.series false job world k).world hrefused
  rw [series_succ]
  exact ⟨hitems, hworld, words, hresult⟩

variable (hkeeps : r.Keeps queue world.store source)

include hkeeps

/-- The first run takes a prefix of the records, and all of them if it ends well. -/
theorem first_records :
    r.Reaches queue world.store (r.series false job world 0).world.store ∧
      ∃ taken, taken <+: goods (source.records filters) ∧
        (r.series false job world 0).items = taken.map (fun i => i.tagged job.jobId) ∧
        ((r.series false job world 0).result = .ok () →
          taken = goods (source.records filters) ∧ ending (source.records filters) = .ok ()) :=
  run_records hb hreads hkeeps hj .first hreads.filters

/-- Behind items behind which a run can go on, the next run takes a prefix of the records
    that are left and not dated before the latest one, and all of them if it ends well. -/
theorem next_records {k : Nat} {taken rest : List Item}
    (h : r.Progress queue source filters job world k taken rest)
    (hgoes : Item.CanGoOn taken) :
    let left := rest.filter fun i => !(filters.behind taken).skipsItem i
    r.Reaches queue world.store (r.series false job world (k + 1)).world.store ∧
      ∃ more, more <+: left ∧
        (r.series false job world (k + 1)).items = more.map (fun i => i.tagged job.jobId) ∧
        ((r.series false job world (k + 1)).result = .ok () →
          more = left ∧ ending (source.records filters) = .ok ()) := by
  intro left
  obtain ⟨hj', hid⟩ := hj.series world k
  have hargs := series_runArgs hj.ready world k h.items
  obtain ⟨f, hf, hgoods, hending⟩ := Source.records_of_resumeArgs
    (c := job.checkpoint.resumed (k + 1)) rfl rfl hreads.filters h.leaves hgoes
  rw [← hargs] at hf
  have hrun := run_records hb hreads hkeeps hj' h.reaches hf
  rw [hgoods, hending, hid] at hrun
  rw [series_succ]
  exact hrun

/-- The runs of a job have always come somewhere among the records. -/
theorem series_progress (k : Nat) :
    ∃ taken rest, r.Progress queue source filters job world k taken rest := by
  -- What a run takes is always a part of what the runs before it left.
  induction k with
  | zero =>
    obtain ⟨hreaches, taken, hprefix, hitems, -⟩ := first_records hb hreads hj hkeeps
    obtain ⟨rest, hleaves⟩ := (Leaves.refl _).take hprefix.sublist
    exact ⟨taken, rest, hreaches, hleaves, (takenUpTo_zero r job world).trans hitems⟩
  | succ k ih =>
    obtain ⟨taken, rest, h⟩ := ih
    by_cases hgoes : Item.CanGoOn taken
    · obtain ⟨hreaches, more, hprefix, hitems, -⟩ := next_records hb hreads hj hkeeps h hgoes
      have hmore := hprefix.sublist.trans List.filter_sublist
      obtain ⟨rest', hleaves⟩ := h.leaves.take hmore
      refine ⟨taken ++ more, rest', hreaches, hleaves, ?_⟩
      rw [takenUpTo_succ, h.items, hitems, List.map_append]
    · obtain ⟨hitems, hworld, -⟩ := next_refused hb hreads hj h hgoes
      refine ⟨taken, rest, ?_, h.leaves, ?_⟩
      · rw [hworld]
        exact h.reaches
      · rw [takenUpTo_succ, hitems, List.append_nil, h.items]

end

/-- A job that is set up for a request is one with the backend that the request names. -/
theorem jobFor_of_setUp {β κ : Type} {r : Request} {registry : Registry β} {b : Backend β}
    {queue : Queue κ} {jobId : String} {files : FileTree} {job : Job β κ}
    (h : r.setUp registry queue jobId files = .ok job) (hb : registry.find? r.backend = some b) :
    r.JobFor b queue job ∧ job.jobId = jobId := by
  have hready := ready_of_setUp h
  obtain ⟨backend, gate, hfind, -, rfl⟩ := setUp_eq_ok h
  rw [hb] at hfind
  cases hfind
  exact ⟨⟨hready, rfl, rfl, rfl⟩, rfl⟩

/-- A request whose job cannot be set up takes nothing. Otherwise its end is that of one of the
    runs of the job, before which no run ended well, and what it takes is what the queue took up
    to that run. -/
theorem execute_cases {β κ : Type} (r : Request) (registry : Registry β) (queue : Queue κ)
    (fresh : String) (world : World β κ) :
    let e := r.execute registry queue fresh world
    ((∃ f, e.result = .error f) ∧ e.items = [] ∧ e.world = world) ∨
      ∃ job n, r.setUp registry queue (r.jobId.getD fresh) world.env.files = .ok job ∧
        e.result = (r.series false job world n).outcome ∧
        e.items = r.takenUpTo job world n ∧ e.world = (r.series false job world n).world ∧
        ∀ k < n, ∃ f, (r.series false job world k).result = .error f := by
  dsimp only
  cases hsetUp : r.setUp registry queue (r.jobId.getD fresh) world.env.files with
  | error e =>
    unfold execute
    dsimp only
    rw [hsetUp]
    exact .inl ⟨⟨_, rfl⟩, rfl, rfl⟩
  | ok job =>
    cases harchiving : validateArchiving job.backend r.archive with
    | error e =>
      unfold execute
      dsimp only
      rw [hsetUp]
      dsimp only
      rw [harchiving]
      exact .inl ⟨⟨_, rfl⟩, rfl, rfl⟩
    | ok u =>
      obtain ⟨n, hgoes, -, hspan⟩ := execute_eq_span hsetUp harchiving
      refine .inr ⟨job, n, rfl, ?_, ?_, ?_, ?_⟩
      · rw [hspan, span_result]
      · rw [hspan, span_items]
        rfl
      · rw [hspan, span_world]
      · intro k hk
        obtain ⟨-, -, f, hf, -⟩ := hgoes k hk
        exact ⟨f, hf⟩

/-- The queue takes some of the records that are wanted, in their order. -/
theorem execute_records {β κ : Type} {r : Request} {registry : Registry β} {b : Backend β}
    {queue : Queue κ} {source : Source} {filters : Filters} {world : World β κ}
    (hfind : registry.find? r.backend = some b) (hb : b.ReadsSources)
    (hreads : r.ReadsRecords source filters)
    (hkeeps : r.Keeps queue world.store source) (fresh : String) :
    ∃ taken : List Item, taken.Sublist (goods (source.records filters)) ∧
      (r.execute registry queue fresh world).items =
        taken.map fun i => i.tagged (r.jobId.getD fresh) := by
  rcases r.execute_cases registry queue fresh world with
    ⟨-, hnone, -⟩ | ⟨job, n, hsetUp, -, hitems, -⟩
  · exact ⟨[], List.nil_sublist _, hnone⟩
  · obtain ⟨hjob, hid⟩ := jobFor_of_setUp hsetUp hfind
    obtain ⟨taken, rest, h⟩ := series_progress hb hreads hjob hkeeps n
    refine ⟨taken, h.leaves.sublist, ?_⟩
    rw [← hid]
    exact hitems.trans h.items

end Request

/-- What the queue takes of all runs of a request for the records of a source is a part of what
    one run takes that nothing interrupts, in the same order, whatever the queue refuses or the
    disk of the archive fails to write, and however the job ends: no record is taken twice, and
    none that the caller does not want. -/
theorem execute_takes_in_order {β κ : Type} {r : Request} {registry : Registry β}
    {disk : Disk β} {queue : Queue κ} {source : Source} {filters : Filters} {fresh : String}
    {world : World β κ} (hfind : registry.find? r.backend = some (Lines.backend disk))
    (hreads : r.ReadsRecords source filters)
    (hkeeps : r.Keeps queue world.store source) :
    let items := (r.execute registry queue fresh world).items
    items.Sublist (r.uninterrupted fresh world.env).items ∧
      (∃ offsets : List Int, items.map Item.offset? = offsets.map some ∧
        offsets.Pairwise (· < ·)) ∧
      ∀ i ∈ items, filters.Wants i := by
  intro items
  have hsource : source.In world.env.files := hkeeps _ .first
  obtain ⟨huninterrupted, -⟩ := Request.uninterrupted_records hreads fresh hsource
  obtain ⟨taken, hsublist, hitems⟩ :=
    Request.execute_records hfind (Lines.backend_reads disk) hreads hkeeps fresh
  have hitems : items = _ := hitems
  rw [hitems, huninterrupted]
  refine ⟨hsublist.map _, ?_, ?_⟩
  · -- A part of a growing sequence of offsets grows as well.
    obtain ⟨offsets, hoffsets, -, hsorted⟩ := source.offsets_of_records filters
    have hmap := hsublist.map Item.offset?
    rw [hoffsets, List.sublist_map_iff] at hmap
    obtain ⟨some', hsome', htaken⟩ := hmap
    refine ⟨some', ?_, hsorted.sublist hsome'⟩
    rw [List.map_map, ← htaken]
    congr 1
    exact funext fun i => i.offset?_tagged _
  · intro i hi
    obtain ⟨k, hk, rfl⟩ := List.mem_map.mp hi
    exact (source.wants_of_records filters k (hsublist.subset hk)).tagged _

/-- A request for the records of a file. -/
def readsLines : Request :=
  { Request.make "task" recordsName recordCategory with
    jobId := some "job", args := [(pathArgument, .string "records.jsonl")], maxRetries := 2 }

/-- Two records, the second of which is dated before the first. -/
def twoRecords : Bytes :=
  Utf8.ofString ("\x7b\"id\":\"a\",\"updated\":200\x7d\n" ++
    "\x7b\"id\":\"b\",\"updated\":100\x7d\n")

/-- The file of the records. -/
def twoRecordsSource : Source where
  path := "records.jsonl"
  place := ["records.jsonl"]
  content := twoRecords
  fits := by decide

/-- The world of the file, with a queue to which nothing was pushed. -/
def twoRecordsWorld : World Unit Queue.Counted :=
  ⟨⟨⟨[(["records.jsonl"], .file twoRecords)], []⟩, ⟨fun _ => ⟨0, 0⟩, 0⟩, ()⟩, .empty⟩

theorem Queue.refusing_files (refusals : List (Nat × QueueError)) (name : String)
    (payload : Bytes) (s : Store Counted) :
    ((refusing refusals).push name payload s).2.files = s.files := by
  unfold refusing
  dsimp only
  split <;> rfl

/-- A queue that refuses a push takes the records in order all the same. -/
theorem in_order_after_refused_push :
    let disk : Disk Unit := fun own => (.cut 3 "full", own)
    let registry : Registry Unit := ⟨[Lines.backend disk]⟩
    let queue := Queue.refusing [(1, .io "refused")]
    registry.find? readsLines.backend = some (Lines.backend disk) ∧
      readsLines.ReadsRecords twoRecordsSource ⟨none, 0⟩ ∧
      readsLines.Keeps queue twoRecordsWorld.store twoRecordsSource ∧
      (readsLines.execute registry queue "other" twoRecordsWorld).items.Sublist
        (readsLines.uninterrupted "other" twoRecordsWorld.env).items := by
  intro disk registry queue
  have hfind : registry.find? readsLines.backend = some (Lines.backend disk) := rfl
  have hreads : readsLines.ReadsRecords twoRecordsSource ⟨none, 0⟩ := ⟨rfl, rfl, rfl, rfl⟩
  have hsource : twoRecordsSource.In twoRecordsWorld.store.files := ⟨rfl, rfl⟩
  have hkeeps : readsLines.Keeps queue twoRecordsWorld.store twoRecordsSource :=
    Request.keeps_of_files (Queue.refusing_files _) rfl hsource
  obtain ⟨hsublist, -, -⟩ := execute_takes_in_order hfind hreads hkeeps
  exact ⟨hfind, hreads, hkeeps, hsublist⟩

end Harvest
