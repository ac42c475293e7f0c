/-
  Harvest.Proofs.Job.Fatal

  When a retry turns a failure that is worth another run into one that is not. The line to go on
  from is always accepted, as every item that is taken has that of a line as its offset. The date
  to go on from is accepted as long as the latest of the items taken is in a year of four digits
  (`accepts_iff`). So a later run ends fatally exactly if one of the items taken before it is in a
  later year, and none that is taken behind them can change that (`later_runs_fatal_iff`).
-/
import Harvest.Proofs.Backend.Interrupted
import Harvest.Proofs.Job.Replays

namespace Harvest

/-! ## Arguments to go on with -/

/-- Arguments that are refused would be by every run. -/
theorem Filters.ofArgs_error {args : Fields} {e : BackendError} (h : ofArgs args = .error e) :
    e.isConfiguration = true := by
  cases hdate : dateOf args with
  | error e' =>
    cases (bind_of_error hdate _).symm.trans h
    unfold dateOf at hdate
    split at hdate
    · cases hdate
    · cases hdate
    · split at hdate
      · cases hdate
      · cases hdate
        rfl
    · cases hdate
      rfl
  | ok fromMillis =>
    have hrest := (bind_of_ok hdate _).symm.trans h
    cases hoffset : offsetOf args with
    | ok offset => cases (bind_of_ok hoffset _).symm.trans hrest
    | error e' =>
      cases (bind_of_error hoffset _).symm.trans hrest
      unfold offsetOf at hoffset
      split at hoffset
      · cases hoffset
      · cases hoffset
      · split at hoffset
        · split at hoffset
          · cases hoffset
          · cases hoffset
            rfl
        · cases hoffset
          rfl

namespace Checkpoint

variable {c : Checkpoint} {args : Fields} {filters : Filters}

/-- Recording items that are numbered leaves an offset that is that of a line. -/
theorem offset_bounds_recordAll {items : List Item} (hitems : ∀ i ∈ items, i.Numbered)
    (hstart : ∀ n, c.offset = some n → 0 ≤ n ∧ n ≤ Number.greatestSigned64) :
    ∀ n, (c.recordAll items).offset = some n → 0 ≤ n ∧ n ≤ Number.greatestSigned64 := by
  induction items generalizing c with
  | nil => exact hstart
  | cons i items ih =>
    refine ih (fun k hk => hitems k (List.mem_cons_of_mem i hk)) ?_
    rcases c.recordItem_cases i with ⟨m, hm, hrecord⟩ | ⟨-, hrecord⟩
    · obtain ⟨-, -, -, hoffset⟩ := Item.marks_eq_ok_iff.mp hm
      rw [hrecord]
      intro n hn
      have hn : m.offset.or c.offset = some n := hn
      rw [← hoffset] at hn
      rcases Option.or_eq_some_iff.mp hn with hi | ⟨-, hc⟩
      · obtain ⟨v, -, hv⟩ := Option.bind_eq_some_iff.mp hi
        exact ⟨hitems i List.mem_cons_self n hi, Json.le_of_asInt64? hv⟩
      · exact hstart n hc
    · rw [hrecord]
      exact hstart

/-- The line to go on from is accepted, and all arguments to go on with are if the date is in a
    year that can be written. -/
theorem accepts_iff (hargs : Filters.ofArgs args = .ok filters)
    (hoffset : ∀ n, c.offset = some n → 0 ≤ n ∧ n ≤ Number.greatestSigned64) :
    (∃ line, Filters.offsetOf (c.resumeArgs args) = .ok line) ∧
      ((∃ f, Filters.ofArgs (c.resumeArgs args) = .ok f) ↔
        ∀ t, c.fromDate = some t → t.HasStrictYear) := by
  obtain ⟨hdate, hline⟩ := Filters.ofArgs_eq_ok_iff.mp hargs
  have haccepted : ∃ line, Filters.offsetOf (c.resumeArgs args) = .ok line := by
    cases hnext : c.offset with
    | none => exact ⟨filters.offset, (offsetOf_resumeArgs_of_none hnext args).trans hline⟩
    | some n =>
      obtain ⟨hpos, hfits⟩ := hoffset n hnext
      exact ⟨n, offsetOf_resumeArgs hnext hpos hfits args⟩
  refine ⟨haccepted, ?_, ?_⟩
  · rintro ⟨f, hf⟩ t ht
    by_contra hyear
    have hsigned : ∃ words, Filters.ofArgs (c.resumeArgs args) =
        .error (.invalidArgument words) := ofArgs_resumeArgs_of_signed ht hyear
    obtain ⟨words, hrefused⟩ := hsigned
    rw [hf] at hrefused
    cases hrefused
  · intro hyear
    obtain ⟨line, hline⟩ := haccepted
    exact ⟨⟨_, line⟩, Filters.ofArgs_eq_ok_iff.mpr ⟨dateOf_resumeArgs hdate hyear, hline⟩⟩

end Checkpoint

/-! ## One run -/

namespace Item

theorem numbered_tagged {i : Item} {job : String} : (i.tagged job).Numbered ↔ i.Numbered := by
  unfold Numbered
  rw [offset?_tagged]

/-- An item that lacks what a job has to know of it is no matter of configuration. -/
theorem marks_error {i : Item} {e : JobError} (h : i.marks = .error e) : e.isFatal = false := by
  unfold marks at h
  split at h
  · cases h
    rfl
  · split at h
    · cases h
      rfl
    · cases h

end Item

section

variable {β κ : Type} {I : Store κ → Prop}

/-- A stream whose errors are none of the arguments ends with no fatal error, and what holds of
    the items that it gives holds of those that are taken of it. -/
theorem Outlet.forwardAll_gives {queue : Queue κ} {name : String}
    (hpush : ∀ s payload, I s → I (queue.push name payload s).2)
    {P : Except BackendError Item → Prop} (herrors : ∀ e, P (.error e) → e.isConfiguration = false)
    {d : Draw (Env β) (Except BackendError Item)} {own : κ} (h : d.Gives I P own)
    (c : Checkpoint) :
    let p := forwardAll ⟨queue, name⟩ d c own
    I p.world.store ∧ (∀ i ∈ p.items, P (.ok i)) ∧
      ∀ e, p.result = .error e → e.isFatal = false := by
  induction h generalizing c with
  | stop h => exact ⟨h, List.forall_mem_nil _, fun e he => nomatch he⟩
  | @item r env rest own h hr hrest ih =>
    cases r with
    | error e =>
      refine ⟨h, List.forall_mem_nil _, ?_⟩
      intro e' he'
      cases he'
      exact herrors e hr
    | ok i =>
      have hkeeps := hpush ⟨env.files, own⟩ i.bytes h
      have hpasses := forwardAll_passes ⟨queue, name⟩ i c env rest own
      generalize forwardAll ⟨queue, name⟩ (.item (.ok i) env rest) c own = p at hpasses ⊢
      cases hpasses with
      | unmarked hm =>
        refine ⟨h, List.forall_mem_nil _, ?_⟩
        intro e' he'
        cases he'
        exact Item.marks_error hm
      | refused hm hp =>
        rw [hp] at hkeeps
        refine ⟨hkeeps, List.forall_mem_nil _, ?_⟩
        intro e' he'
        cases he'
        rfl
      | @accepted m t hm hp =>
        rw [hp] at hkeeps
        obtain ⟨hstore, hitems, htransient⟩ := ih { env with files := t.files } t.own hkeeps
          (c.recordItem i)
        exact ⟨hstore, List.forall_mem_cons.mpr ⟨hr, hitems⟩, htransient⟩

/-- A run whose fetch or replay is one from which a run can go on ends with no fatal error, and
    the items that are taken in it are numbered. -/
theorem Job.run_opens {j : Job β κ} {args : Fields} {archive : Option ArchiveArgs}
    {resume : Bool} {world : World β κ} {opened : Opening β}
    (hgate : j.gate.ensure world.env.files archive = .ok j.gate)
    (hpush : ∀ s payload, I s → I (j.queue.push j.queueName payload s).2)
    (hitems : j.gate.items j.backend j.category (j.runArgs args resume) archive world.env =
      (opened.1.mapError .backend, opened.2)) (h : Opens I world.queue opened) :
    let run := j.run args archive resume world
    I run.world.store ∧ (∀ i ∈ run.items, i.Numbered) ∧
      ∀ e, run.result = .error e → e.isFatal = false := by
  unfold run
  rw [hgate]
  dsimp only
  rw [hitems]
  cases h with
  | failed h he =>
    refine ⟨h, List.forall_mem_nil _, ?_⟩
    intro e hresult
    cases hresult
    exact he
  | @given items env h hgives =>
    have htagged : (items.tagged j.jobId env).Gives I Resumable world.queue := by
      refine (hgives env world.queue h).map ?_
      intro r hr
      cases r with
      | error e => exact hr
      | ok i => exact Item.numbered_tagged.mpr hr
    exact Outlet.forwardAll_gives hpush (fun e he => he) htagged (j.startPoint resume)

/-- A run whose fetch or replay is refused takes nothing and changes nothing in the files. -/
theorem Job.run_refused {j : Job β κ} {args : Fields} {archive : Option ArchiveArgs}
    {resume : Bool} {world : World β κ} {e : BackendError} {env : Env β}
    (hgate : j.gate.ensure world.env.files archive = .ok j.gate)
    (hitems : j.gate.items j.backend j.category (j.runArgs args resume) archive world.env =
      (.error (.backend e), env)) :
    let run := j.run args archive resume world
    run.world = ⟨env, world.queue⟩ ∧ run.items = [] ∧ run.result = .error (.backend e) := by
  unfold run
  rw [hgate]
  dsimp only
  rw [hitems]
  exact ⟨rfl, rfl, rfl⟩

end

/-! ## Requests that are accepted -/

namespace Request

variable {β κ : Type}

/-- A request whose category and arguments the backend for files of records accepts. -/
structure Accepted (r : Request) (filters : Filters) : Prop where
  category : r.category = recordCategory
  filters : Filters.ofArgs r.args = .ok filters
  /-- A fetch asks for a path. -/
  path : Route.select r.archive = .live → ∃ path, requiredPath r.args = .ok path
  /-- A replay may do without, but asks for no wrong one. -/
  origin : ∀ after, Route.select r.archive = .replay after →
    ∃ origin, Lines.AsksFor r.args origin

/-- The file that is replayed, if the request is one for a replay, is what it was. -/
def FileKept (r : Request) (files : FileTree) (s : Store κ) : Prop :=
  ∀ archive, r.archive = some archive → archive.replays = true →
    Archive.SameFile ⟨⟨archive.path⟩⟩ recordCategory files s.files

/-- What is replayed, if the request is one for a replay, is on lines that can be numbered, and
    the queue of the request leaves it as it is. -/
structure ReplaysNumbered (r : Request) (queue : Queue κ) (files : FileTree) : Prop where
  numbered : ∀ archive, r.archive = some archive → archive.replays = true →
    Archive.Numbered ⟨⟨archive.path⟩⟩ recordCategory files
  kept : ∀ s payload, r.FileKept files s → r.FileKept files (queue.push r.queue payload s).2

/-- There is nothing to replay for a request that fetches. -/
theorem not_replays_of_live {r : Request} (h : Route.select r.archive = .live)
    (archive : ArchiveArgs) (harchive : r.archive = some archive) : ¬ archive.replays = true := by
  intro hreplays
  rw [harchive, Route.select, if_pos hreplays] at h
  cases h

theorem fileKept_of_live {r : Request} (h : Route.select r.archive = .live) (files : FileTree) :
    (r.FileKept files : Store κ → Prop) = fun _ => True := by
  funext s
  refine eq_true ?_
  intro archive harchive hreplays
  exact absurd hreplays (not_replays_of_live h archive harchive)

theorem replaysNumbered_of_live {r : Request} (h : Route.select r.archive = .live)
    (queue : Queue κ) (files : FileTree) : r.ReplaysNumbered queue files where
  numbered := fun archive harchive hreplays =>
    absurd hreplays (not_replays_of_live h archive harchive)
  kept := by
    intro s payload hs
    rw [fileKept_of_live h]
    trivial

/-- A replay is one of an archive. -/
theorem archive_of_replay {r : Request} {after : Option Calendar.Instant}
    (h : Route.select r.archive = .replay after) :
    ∃ archive, r.archive = some archive ∧ archive.replays = true := by
  cases harchive : r.archive with
  | none =>
    rw [harchive] at h
    cases h
  | some archive =>
    rw [harchive, Route.select] at h
    by_cases hreplays : archive.replays = true
    · exact ⟨archive, rfl, hreplays⟩
    · rw [if_neg hreplays] at h
      cases h

section

variable {r : Request} {faults : Faults β} {disk : Disk β} {queue : Queue κ} {j : Job β κ}
  {filters : Filters} {resume : Bool} {files : FileTree}
  (hj : r.JobFor (Lines.interrupted faults disk) queue j) (haccepted : r.Accepted filters)

include hj haccepted

/-- A fetch or a replay with arguments that are accepted is one from which a run can go on. -/
theorem items_opens (hreplays : r.ReplaysNumbered queue files) {f : Filters}
    (hf : Filters.ofArgs (j.runArgs r.args resume) = .ok f) {env : Env β} {own : κ}
    (hkept : r.FileKept files ⟨env.files, own⟩) :
    ∃ opened, j.gate.items j.backend j.category (j.runArgs r.args resume) r.archive env =
        (opened.1.mapError .backend, opened.2) ∧ Opens (r.FileKept files) own opened := by
  have hbackend := hj.backend
  have hcategory := hj.ready.category.trans haccepted.category
  rw [hbackend, hcategory]
  cases hroute : Route.select r.archive with
  | live =>
    obtain ⟨path, hpath⟩ := haccepted.path hroute
    have hpath := (j.requiredPath_runArgs r.args resume).trans hpath
    have hopens : Opens (r.FileKept files) own ((Lines.backend disk).fetch recordCategory
        (j.runArgs r.args resume) j.gate.archive env) := by
      rw [fileKept_of_live hroute]
      exact Lines.fetch_opens hpath hf (fun _ _ _ _ _ => trivial) trivial
    exact ⟨_, Gate.items_live hroute _ _ _ env, hopens.interrupted faults⟩
  | replay after =>
    obtain ⟨archive, harchive, hreplayed⟩ := archive_of_replay hroute
    obtain ⟨origin, horigin⟩ := haccepted.origin after hroute
    have hgate : j.gate.archive = some ⟨⟨archive.path⟩⟩ := by
      rw [hj.ready.archive, harchive]
      rfl
    have hopens : Opens (r.FileKept files) own ((Lines.backend disk).replay recordCategory
        (j.runArgs r.args resume) ⟨⟨archive.path⟩⟩ after env) :=
      Lines.replay_opens (fun s hs => hs archive harchive hreplayed)
        (hreplays.numbered archive harchive hreplayed) (Job.asksFor_runArgs horigin j resume) hf
        after hkept
    exact ⟨_, Gate.items_replay hroute hgate _ _ _ env, hopens.interrupted faults⟩

/-- With arguments that are refused it fails. -/
theorem items_refused {e : BackendError}
    (hf : Filters.ofArgs (j.runArgs r.args resume) = .error e) (env : Env β) :
    j.gate.items j.backend j.category (j.runArgs r.args resume) r.archive env =
      (.error (.backend e), env) := by
  have hcategory := hj.ready.category.trans haccepted.category
  rw [hj.backend, hcategory]
  cases hroute : Route.select r.archive with
  | live =>
    obtain ⟨path, hpath⟩ := haccepted.path hroute
    have hpath := (j.requiredPath_runArgs r.args resume).trans hpath
    have hfetch : (Lines.interrupted faults disk).fetch recordCategory
        (j.runArgs r.args resume) j.gate.archive env = (.error e, env) := by
      show faults.opening (Lines.fetch recordCategory _ _ env disk, env) = _
      rw [Lines.fetch_of_refused hpath hf]
      rfl
    rw [Gate.items_live hroute, hfetch]
    rfl
  | replay after =>
    obtain ⟨archive, harchive, -⟩ := archive_of_replay hroute
    have hgate : j.gate.archive = some ⟨⟨archive.path⟩⟩ := by
      rw [hj.ready.archive, harchive]
      rfl
    have hreplay : (Lines.interrupted faults disk).replay recordCategory
        (j.runArgs r.args resume) ⟨⟨archive.path⟩⟩ after env = (.error e, env) := by
      show faults.opening (Lines.replay recordCategory _ _ _ env, env) = _
      rw [Lines.replay_of_refused hf]
      rfl
    rw [Gate.items_replay hroute hgate, hreplay]
    rfl

/-- A run ends fatally exactly if its arguments are refused. -/
theorem run_numbered (hreplays : r.ReplaysNumbered queue files) {world : World β κ}
    (hkept : r.FileKept files world.store) :
    let run := j.run r.args r.archive resume world
    r.FileKept files run.world.store ∧ (∀ i ∈ run.items, i.Numbered) ∧
      ((∃ e, run.result = .error e ∧ e.isFatal = true) ↔
        ¬ ∃ f, Filters.ofArgs (j.runArgs r.args resume) = .ok f) := by
  have hgate := hj.ready.opened world.env.files
  cases hf : Filters.ofArgs (j.runArgs r.args resume) with
  | ok f =>
    have hpush : ∀ s payload, r.FileKept files s →
        r.FileKept files (j.queue.push j.queueName payload s).2 := by
      rw [hj.queue, hj.name]
      exact hreplays.kept
    obtain ⟨opened, hitems, hopens⟩ := items_opens hj haccepted hreplays hf hkept
    obtain ⟨hstore, hnumbered, htransient⟩ := Job.run_opens hgate hpush hitems hopens
    refine ⟨hstore, hnumbered, ?_⟩
    constructor
    · rintro ⟨e, hresult, hfatal⟩
      rw [htransient e hresult] at hfatal
      cases hfatal
    · intro hnone
      exact absurd ⟨f, rfl⟩ hnone
  | error e =>
    have hitems := items_refused hj haccepted hf world.env
    obtain ⟨hworld, hnone, hresult⟩ := Job.run_refused hgate hitems
    dsimp only
    rw [hworld, hnone, hresult]
    refine ⟨hkept, List.forall_mem_nil _, ?_⟩
    constructor
    · rintro - ⟨f, hf⟩
      cases hf
    · intro _
      exact ⟨.backend e, rfl, Filters.ofArgs_error hf⟩

/-- All items that are taken are numbered. -/
theorem series_numbered {world : World β κ} (hreplays : r.ReplaysNumbered queue world.env.files)
    (k : Nat) :
    r.FileKept world.env.files (r.series false j world k).world.store ∧
      ∀ i ∈ r.takenUpTo j world k, i.Numbered := by
  induction k with
  | zero =>
    have hkept : r.FileKept world.env.files world.store :=
      fun _ _ _ => Archive.SameFile.refl _ _ _
    obtain ⟨hstore, hnumbered, -⟩ := run_numbered hj haccepted hreplays hkept
    rw [takenUpTo_zero]
    exact ⟨hstore, hnumbered⟩
  | succ k ih =>
    obtain ⟨hkept, htaken⟩ := ih
    obtain ⟨hjob, -⟩ := hj.series world k
    obtain ⟨hstore, hnumbered, -⟩ := run_numbered hjob haccepted hreplays hkept
    rw [takenUpTo_succ, series_succ]
    refine ⟨hstore, ?_⟩
    intro i hi
    rcases List.mem_append.mp hi with hi | hi
    · exact htaken i hi
    · exact hnumbered i hi

/-- What a checkpoint puts among the arguments is accepted, but for a date in a year that cannot
    be written. -/
theorem fetchArgs_accepted {world : World β κ}
    (hreplays : r.ReplaysNumbered queue world.env.files) (k : Nat) :
    (∃ line, Filters.offsetOf (r.fetchArgs j world (k + 1)) = .ok line) ∧
      ((∃ f, Filters.ofArgs (r.fetchArgs j world (k + 1)) = .ok f) ↔
        Item.CanGoOn (r.takenUpTo j world k)) := by
  obtain ⟨-, hnumbered⟩ := series_numbered hj haccepted hreplays k
  -- Before its first run a job has neither a date nor a line to go on from.
  have hdate : (j.checkpoint.resumed k).maxDate = none := rfl
  have hstart : ∀ n, (j.checkpoint.resumed k).offset = some n →
      0 ≤ n ∧ n ≤ Number.greatestSigned64 := fun n hn => nomatch hn
  have haccepts := Checkpoint.accepts_iff haccepted.filters
    (Checkpoint.offset_bounds_recordAll hnumbered hstart)
  rw [Checkpoint.fromDate_recordAll hdate, ← series_checkpoint hj.ready] at haccepts
  exact haccepts

end

end Request

/-- Whatever faults strike, whatever the disk of the archive fails to write, and whatever the queue
    refuses: the arguments of a later run are accepted, but for a date in a year that cannot be
    written, and a later run ends fatally exactly if the items taken before it make it go on from
    such a date. Errors of the first run are worth another one. -/
theorem later_runs_fatal_iff {β κ : Type} {r : Request} {registry : Registry β}
    {faults : Faults β} {disk : Disk β} {queue : Queue κ} {fresh : String} {world : World β κ}
    {job : Job β κ} {filters : Filters}
    (hfind : registry.find? r.backend = some (Lines.interrupted faults disk))
    (hsetUp : r.setUp registry queue (r.jobId.getD fresh) world.env.files = .ok job)
    (haccepted : r.Accepted filters) (hreplays : r.ReplaysNumbered queue world.env.files) :
    (∃ n, r.EndsWith job world n (r.execute registry queue fresh world)) ∧
      (∀ e, (r.series false job world 0).result = .error e → e.isFatal = false) ∧
      ∀ k,
        (∃ line, Filters.offsetOf (r.fetchArgs job world (k + 1)) = .ok line) ∧
        ((∃ f, Filters.ofArgs (r.fetchArgs job world (k + 1)) = .ok f) ↔
          Item.CanGoOn (r.takenUpTo job world k)) ∧
        ((∃ e, (r.series false job world (k + 1)).result = .error e ∧ e.isFatal = true) ↔
          ¬ Item.CanGoOn (r.takenUpTo job world k)) := by
  obtain ⟨hj, -⟩ := Request.jobFor_of_setUp hsetUp hfind
  have harchiving : validateArchiving job.backend r.archive = .ok () := by
    rw [hj.backend]
    unfold validateArchiving
    rw [if_neg (by simp [Lines.interrupted, Lines.backend])]
  obtain ⟨n, hends, -⟩ := execute_within_budget hsetUp harchiving
  have hkept : r.FileKept world.env.files world.store :=
    fun _ _ _ => Archive.SameFile.refl _ _ _
  refine ⟨⟨n, hends⟩, ?_, ?_⟩
  · intro e hresult
    obtain ⟨-, -, hfatal⟩ := Request.run_numbered hj haccepted hreplays hkept
    rw [← Bool.not_eq_true]
    intro hrefused
    exact hfatal.mp ⟨e, hresult, hrefused⟩ ⟨filters, haccepted.filters⟩
  · intro k
    obtain ⟨hline, haccepts⟩ := Request.fetchArgs_accepted hj haccepted hreplays k
    obtain ⟨hjob, -⟩ := hj.series world k
    obtain ⟨hkept', -⟩ := Request.series_numbered hj haccepted hreplays k
    obtain ⟨-, -, hfatal⟩ := Request.run_numbered hjob haccepted hreplays hkept'
    refine ⟨hline, haccepts, ?_⟩
    rw [Request.series_succ, ← haccepts]
    exact hfatal

/-- Two records that are dated in the year 10000. -/
def lateRecords : Bytes :=
  Utf8.ofString ("\x7b\"id\":\"a\",\"updated\":253402300800\x7d\n" ++
    "\x7b\"id\":\"b\",\"updated\":253402300800\x7d\n")

/-- The world of the file of the records, with a queue to which nothing was pushed. -/
def lateWorld : World Unit Queue.Counted :=
  ⟨⟨⟨[(["records.jsonl"], .file lateRecords)], []⟩, ⟨fun _ => ⟨0, 0⟩, 0⟩, ()⟩, .empty⟩

/-- A push that is refused between the two records makes the second run end fatally. -/
theorem fatal_after_late_record :
    let faults : Faults Unit := .never
    let registry : Registry Unit := ⟨[Lines.interrupted faults]⟩
    let queue := Queue.refusing [(1, .io "refused")]
    ∃ job, registry.find? readsLines.backend = some (Lines.interrupted faults) ∧
      readsLines.setUp registry queue "job" lateWorld.env.files = .ok job ∧
      readsLines.Accepted ⟨none, 0⟩ ∧ readsLines.ReplaysNumbered queue lateWorld.env.files ∧
      ∃ e, (readsLines.series false job lateWorld 1).result = .error e ∧ e.isFatal = true := by
  intro faults registry queue
  have hfind : registry.find? readsLines.backend = some (Lines.interrupted faults) := rfl
  have hsetUp : readsLines.setUp registry queue (readsLines.jobId.getD "other")
      lateWorld.env.files = .ok ⟨"job", "task", recordCategory, Lines.interrupted faults, queue,
        "items", .shut, .start "job" "task" recordsName recordCategory⟩ := rfl
  have haccepted : readsLines.Accepted ⟨none, 0⟩ :=
    ⟨rfl, rfl, fun _ => ⟨"records.jsonl", rfl⟩, fun after h => nomatch h⟩
  have hreplays : readsLines.ReplaysNumbered queue lateWorld.env.files :=
    Request.replaysNumbered_of_live rfl queue _
  refine ⟨_, hfind, hsetUp, haccepted, hreplays, ?_⟩
  obtain ⟨-, -, hruns⟩ := later_runs_fatal_iff hfind hsetUp haccepted hreplays
  obtain ⟨-, -, hfatal⟩ := hruns 0
  rw [hfatal]
  intro hgoes
  have hyear : (Item.nextDate (readsLines.takenUpTo ⟨"job", "task", recordCategory,
      Lines.interrupted faults, queue, "items", .shut,
      .start "job" "task" recordsName recordCategory⟩ lateWorld 0)).map (fun t => t.date.year) =
      some 10000 := by
    decide +kernel
  obtain ⟨t, ht, ht'⟩ := Option.map_eq_some_iff.mp hyear
  have hstrict := (hgoes t ht).2
  omega

end Harvest
