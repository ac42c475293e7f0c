/-
  Harvest.Proofs.Job.Account

  The checkpoint of a job is an account of the items that its queue took.

  A run records an item exactly when the queue takes it (`forwardAll_checkpoint`), so that
  the checkpoint after a run is the one before it with the items that the queue took
  (`run_checkpoint`). A ledger keeps, beside a job, the items that count, those taken since
  the last fresh run whose archive could be opened, and the log of a queue that writes down what
  it appends. Whatever runs a job is asked for, in whatever worlds, its checkpoint tells of
  exactly those items, and they are the ones in the log (`checkpoint_accounts_for_taken`).
-/
import Harvest.Backend.Scripted
import Harvest.Job.Run
import Harvest.Proofs.Number.Order
import Harvest.Queue.Memory

namespace Harvest

/-! ## Recording items -/

namespace Item

/-- An item has its marks exactly when it has an identifier and a finite time of update. -/
theorem marks_eq_ok_iff {i : Item} {m : Marks} :
    i.marks = .ok m ↔ i.uuid? = some m.uuid ∧ i.updated? = some m.updated ∧
      m.updated.isFinite = true ∧ i.offset? = m.offset := by
  obtain ⟨uuid, updated, offset⟩ := m
  unfold marks
  cases hu : i.uuid? with
  | none => simp
  | some u =>
    cases hd : i.updated? with
    | none => simp
    | some d =>
      by_cases hf : d.isFinite = true
      · simp only [Option.filter_some, hf, if_true, Except.ok.injEq, Marks.mk.injEq,
          Option.some.injEq]
        constructor
        · rintro ⟨rfl, rfl, rfl⟩
          exact ⟨rfl, rfl, hf, rfl⟩
        · rintro ⟨rfl, rfl, _, rfl⟩
          exact ⟨rfl, rfl, rfl⟩
      · simp only [Option.filter_some, hf, Option.some.injEq]
        constructor
        · intro h
          cases h
        · rintro ⟨_, rfl, hfin, _⟩
          exact absurd hfin hf

/-- Tagging an item leaves what a job has to know of it. -/
@[simp] theorem marks_tagged (i : Item) (job : String) : (i.tagged job).marks = i.marks := by
  simp only [marks, uuid?_tagged, updated?_tagged, offset?_tagged]

end Item

namespace Checkpoint

/-- Takes account of an item that the queue took. -/
def recordItem (c : Checkpoint) (i : Item) : Checkpoint :=
  match i.marks with
  | .ok m => c.record m.uuid m.updated m.offset
  | .error _ => c

/-- Takes account of several items in order. -/
def recordAll (c : Checkpoint) (items : List Item) : Checkpoint := items.foldl recordItem c

@[simp] theorem recordAll_nil (c : Checkpoint) : c.recordAll [] = c := rfl

@[simp] theorem recordAll_cons (c : Checkpoint) (i : Item) (items : List Item) :
    c.recordAll (i :: items) = (c.recordItem i).recordAll items := rfl

theorem recordAll_append (c : Checkpoint) (items more : List Item) :
    c.recordAll (items ++ more) = (c.recordAll items).recordAll more := by
  rw [recordAll, List.foldl_append]; rfl

theorem recordItem_of_marks {c : Checkpoint} {i : Item} {m : Marks} (h : i.marks = .ok m) :
    c.recordItem i = c.record m.uuid m.updated m.offset := by
  unfold recordItem
  rw [h]

/-- Recording an item is recording its marks, or nothing if it lacks them. -/
theorem recordItem_cases (c : Checkpoint) (i : Item) :
    (∃ m, i.marks = .ok m ∧ c.recordItem i = c.record m.uuid m.updated m.offset) ∨
      ((∃ e, i.marks = .error e) ∧ c.recordItem i = c) := by
  unfold recordItem
  cases i.marks with
  | ok m => exact .inl ⟨m, rfl, rfl⟩
  | error e => exact .inr ⟨⟨e, rfl⟩, rfl⟩

@[simp] theorem reset_recordItem (c : Checkpoint) (i : Item) :
    (c.recordItem i).reset = c.reset := by
  rcases c.recordItem_cases i with ⟨m, -, h⟩ | ⟨-, h⟩
  · rw [h, reset_record]
  · rw [h]

@[simp] theorem resumes_recordItem (c : Checkpoint) (i : Item) :
    (c.recordItem i).resumes = c.resumes := by
  rcases c.recordItem_cases i with ⟨m, -, h⟩ | ⟨-, h⟩
  · rw [h, resumes_record]
  · rw [h]

/-- Recording items leaves whose checkpoint it is. -/
@[simp] theorem reset_recordAll (c : Checkpoint) (items : List Item) :
    (c.recordAll items).reset = c.reset := by
  induction items generalizing c with
  | nil => rfl
  | cons i items ih => rw [recordAll_cons, ih, reset_recordItem]

/-- Recording items leaves the number of resumed runs. -/
@[simp] theorem resumes_recordAll (c : Checkpoint) (items : List Item) :
    (c.recordAll items).resumes = c.resumes := by
  induction items generalizing c with
  | nil => rfl
  | cons i items ih => rw [recordAll_cons, ih, resumes_recordItem]

end Checkpoint

/-! ## What a run records -/

namespace Outlet

variable {β κ : Type}

/-- An item lacks its marks, or the queue refuses it, or the queue takes it. -/
theorem push_cases (outlet : Outlet κ) (item : Item) (s : Store κ) :
    (∃ e, item.marks = .error e) ∨
      ∃ m, item.marks = .ok m ∧
        ((∃ e t, outlet.queue.push outlet.name item.bytes s = (.error e, t)) ∨
          ∃ t, outlet.queue.push outlet.name item.bytes s = (.ok (), t)) := by
  cases item.marks with
  | error e => exact .inl ⟨e, rfl⟩
  | ok m =>
    right
    refine ⟨m, rfl, ?_⟩
    cases outlet.queue.push outlet.name item.bytes s with
    | mk reply t =>
      cases reply with
      | error e => exact .inl ⟨e, t, rfl⟩
      | ok u => exact .inr ⟨t, rfl⟩

/-- What a stream comes to that gives an item: it ends with an item that lacks its marks or that
    the queue refuses, and if the queue takes the item, it is recorded and the rest follows. -/
inductive Passes (outlet : Outlet κ) (item : Item) (c : Checkpoint) (env : Env β)
    (rest : Env β → Draw (Env β) (Except BackendError Item)) (own : κ) : Passage β κ → Prop where
  | unmarked {e : JobError} (hm : item.marks = .error e) :
      Passes outlet item c env rest own ⟨.error e, c, [], ⟨env, own⟩⟩
  | refused {m : Marks} {e : QueueError} {t : Store κ} (hm : item.marks = .ok m)
      (hp : outlet.queue.push outlet.name item.bytes ⟨env.files, own⟩ = (.error e, t)) :
      Passes outlet item c env rest own
        ⟨.error (.queue e), c, [], ⟨{ env with files := t.files }, t.own⟩⟩
  | accepted {m : Marks} {t : Store κ} (hm : item.marks = .ok m)
      (hp : outlet.queue.push outlet.name item.bytes ⟨env.files, own⟩ = (.ok (), t)) :
      Passes outlet item c env rest own
        ((outlet.forwardAll (rest { env with files := t.files }) (c.recordItem item) t.own).cons
          item)

theorem forwardAll_passes (outlet : Outlet κ) (item : Item) (c : Checkpoint) (env : Env β)
    (rest : Env β → Draw (Env β) (Except BackendError Item)) (own : κ) :
    outlet.Passes item c env rest own (outlet.forwardAll (.item (.ok item) env rest) c own) := by
  rcases outlet.push_cases item ⟨env.files, own⟩ with
    ⟨e, hm⟩ | ⟨m, hm, ⟨e, t, hp⟩ | ⟨t, hp⟩⟩
  · rw [forwardAll, forward, hm]
    exact .unmarked hm
  · simp only [forwardAll, forward, hm, hp]
    exact .refused hm hp
  · simp only [forwardAll, forward, hm, hp]
    rw [← Checkpoint.recordItem_of_marks hm]
    exact .accepted hm hp

/-- The checkpoint after a stream is the one before it with the items that the queue took,
    each of which has its marks. -/
theorem forwardAll_checkpoint (outlet : Outlet κ) (d : Draw (Env β) (Except BackendError Item))
    (c : Checkpoint) (own : κ) :
    (outlet.forwardAll d c own).checkpoint = c.recordAll (outlet.forwardAll d c own).items ∧
      ∀ i ∈ (outlet.forwardAll d c own).items, ∃ m, i.marks = .ok m := by
  induction d generalizing c own with
  | stop env => exact ⟨rfl, List.forall_mem_nil _⟩
  | item r env rest ih =>
    cases r with
    | error e => exact ⟨rfl, List.forall_mem_nil _⟩
    | ok item =>
      have hpasses := outlet.forwardAll_passes item c env rest own
      generalize outlet.forwardAll (.item (.ok item) env rest) c own = p at hpasses ⊢
      cases hpasses with
      | unmarked hm => exact ⟨rfl, List.forall_mem_nil _⟩
      | refused hm hp => exact ⟨rfl, List.forall_mem_nil _⟩
      | @accepted m t hm hp =>
        obtain ⟨hcheckpoint, hmarks⟩ := ih { env with files := t.files } (c.recordItem item) t.own
        exact ⟨hcheckpoint, List.forall_mem_cons.mpr ⟨⟨m, hm⟩, hmarks⟩⟩

end Outlet

/-! ## What a queue took -/

/-- A queue that keeps, beside what it keeps anyway, the payloads that were appended, each with
    the name that it was appended under. -/
def Queue.logged {κ : Type} (q : Queue κ) : Queue (κ × List (String × Bytes)) where
  push name payload store :=
    match q.push name payload ⟨store.files, store.own.1⟩ with
    | (.ok (), after) => (.ok (), ⟨after.files, after.own, store.own.2 ++ [(name, payload)]⟩)
    | (.error e, after) => (.error e, ⟨after.files, after.own, store.own.2⟩)

theorem Queue.logged_push_ok {κ : Type} {q : Queue κ} {name : String} {payload : Bytes}
    {files : FileTree} {own : κ} {after : Store κ}
    (h : q.push name payload ⟨files, own⟩ = (.ok (), after)) (log : List (String × Bytes)) :
    q.logged.push name payload ⟨files, own, log⟩ =
      (.ok (), ⟨after.files, after.own, log ++ [(name, payload)]⟩) := by
  unfold logged
  dsimp only
  rw [h]

theorem Queue.logged_push_error {κ : Type} {q : Queue κ} {name : String} {payload : Bytes}
    {files : FileTree} {own : κ} {after : Store κ} {e : QueueError}
    (h : q.push name payload ⟨files, own⟩ = (.error e, after)) (log : List (String × Bytes)) :
    q.logged.push name payload ⟨files, own, log⟩ =
      (.error e, ⟨after.files, after.own, log⟩) := by
  unfold logged
  dsimp only
  rw [h]

/-- The items of a stream that count as taken are those whose payloads the queue appended, in
    the order in which it did. -/
theorem Outlet.forwardAll_logged {β κ : Type} (q : Queue κ) (name : String)
    (d : Draw (Env β) (Except BackendError Item)) (c : Checkpoint) (own : κ)
    (log : List (String × Bytes)) :
    let plain := Outlet.forwardAll ⟨q, name⟩ d c own
    Outlet.forwardAll ⟨q.logged, name⟩ d c (own, log) =
      ⟨plain.result, plain.checkpoint, plain.items, plain.world.env,
        plain.world.queue, log ++ plain.items.map fun i => (name, i.bytes)⟩ := by
  induction d generalizing c own log with
  | stop env => simp [forwardAll]
  | item r env rest ih =>
    cases r with
    | error e => simp [forwardAll]
    | ok item =>
      cases hm : item.marks with
      | error e => simp [forwardAll, forward, hm]
      | ok m =>
        generalize hp : q.push name item.bytes ⟨env.files, own⟩ = p
        obtain ⟨result, after⟩ := p
        cases result with
        | error e =>
          have hlogged := Queue.logged_push_error hp log
          simp [forwardAll, forward, hm, hlogged, hp]
        | ok u =>
          have hlogged := Queue.logged_push_ok hp log
          simp only [forwardAll, forward, hm, hlogged, hp]
          rw [ih]
          simp [Passage.cons]

namespace Job

variable {β κ : Type}

/-- The job with a queue that keeps what is appended to it. -/
def logged (j : Job β κ) : Job β (κ × List (String × Bytes)) :=
  { j with queue := j.queue.logged }

/-- The items that a run counts as taken are those whose payloads the queue appended under the
    name of the job, in the order in which it did. -/
theorem run_logged (j : Job β κ) (args : Fields) (archive : Option ArchiveArgs) (resume : Bool)
    (env : Env β) (own : κ) (log : List (String × Bytes)) :
    let plain := j.run args archive resume ⟨env, own⟩
    j.logged.run args archive resume ⟨env, own, log⟩ =
      ⟨plain.result, plain.job.logged, plain.items, plain.world.env, plain.world.queue,
        log ++ plain.items.map fun i => (j.queueName, i.bytes)⟩ := by
  unfold run
  rw [show j.logged.gate = j.gate from rfl]
  dsimp only
  cases hg : j.gate.ensure env.files archive with
  | error e => simp
  | ok gate =>
    dsimp only
    rw [show j.logged.runArgs args resume = j.runArgs args resume from rfl,
      show j.logged.backend = j.backend from rfl, show j.logged.category = j.category from rfl]
    generalize gate.items j.backend j.category (j.runArgs args resume) archive env = opened
    obtain ⟨opened, env'⟩ := opened
    cases opened with
    | error e => simp [logged, startPoint]
    | ok items =>
      dsimp only
      rw [show j.logged.outlet = ⟨j.queue.logged, j.queueName⟩ from rfl,
        show j.logged.startPoint resume = j.startPoint resume from rfl,
        show j.logged.jobId = j.jobId from rfl, Outlet.forwardAll_logged]
      rfl

/-- A run leaves the name of the queue of its job. -/
theorem run_queueName (j : Job β κ) (args : Fields) (archive : Option ArchiveArgs)
    (resume : Bool) (world : World β κ) :
    (j.run args archive resume world).job.queueName = j.queueName := by
  simp only [run]
  split
  · rfl
  · split <;> rfl

/-- A run that cannot open its archive takes nothing and leaves the job. -/
theorem run_of_ensure_error {j : Job β κ} {args : Fields} {archive : Option ArchiveArgs}
    {resume : Bool} {world : World β κ} {e : JobError}
    (h : j.gate.ensure world.env.files archive = .error e) :
    j.run args archive resume world = ⟨.error e, j, [], world⟩ := by
  unfold run
  rw [h]

/-- The checkpoint after a run that could open its archive is the one that it starts from
    with the items that the queue took, each of which has its marks. -/
theorem run_checkpoint {j : Job β κ} {archive : Option ArchiveArgs} {world : World β κ}
    {gate : Gate} (h : j.gate.ensure world.env.files archive = .ok gate) (args : Fields)
    (resume : Bool) :
    (j.run args archive resume world).job.checkpoint =
        (j.startPoint resume).recordAll (j.run args archive resume world).items ∧
      ∀ i ∈ (j.run args archive resume world).items, ∃ m, i.marks = .ok m := by
  unfold run
  rw [h]
  dsimp only
  split
  · exact ⟨rfl, fun i hi => nomatch hi⟩
  · exact Outlet.forwardAll_checkpoint ..

end Job

/-! ## What a checkpoint tells -/

/-- A time of update of some of the items that none of their times exceeds, or no time if there
    are no items. -/
def Item.IsLatest (taken : List Item) : Option Float → Prop
  | none => taken = []
  | some greatest =>
    (∃ i ∈ taken, i.updated? = some greatest) ∧
      ∀ i ∈ taken, ∀ updated, i.updated? = some updated → ¬ greatest < updated

/-- The checkpoint is an exact account of items that a queue took, and of how many runs went on
    from an earlier one. The items are counted in sixty-four bits and the runs in thirty-two. -/
structure Checkpoint.Accounts (c : Checkpoint) (taken : List Item) (resumes : Nat) : Prop where
  marked : ∀ i ∈ taken, ∃ m, i.marks = .ok m
  items : c.items = Number.wrap Number.greatestUnsigned64 taken.length
  lastUuid : c.lastUuid = taken.getLast?.bind Item.uuid?
  maxDate : Item.IsLatest taken c.maxDate
  offset : c.offset = (taken.filterMap Item.offset?).getLast?
  resumes : c.resumes = Number.wrap Number.greatestUnsigned32 resumes

/-- The later of two times is the latest one. -/
theorem Item.IsLatest.laterDate {taken : List Item} {greatest : Option Float} {i : Item}
    {m : Marks} (h : Item.IsLatest taken greatest) (hmarked : ∀ k ∈ taken, ∃ m, k.marks = .ok m)
    (hm : i.marks = .ok m) :
    Item.IsLatest (taken ++ [i]) (Checkpoint.laterDate greatest m.updated) := by
  obtain ⟨-, hupdated, hfinite, -⟩ := Item.marks_eq_ok_iff.mp hm
  have hself := Number.not_lt_self hfinite
  cases greatest with
  | none =>
    have htaken : taken = [] := h
    subst htaken
    refine ⟨⟨i, by simp, hupdated⟩, ?_⟩
    intro k hk u hu
    rw [List.nil_append, List.mem_singleton] at hk
    rw [hk, hupdated, Option.some.injEq] at hu
    rw [← hu]
    exact hself
  | some g =>
    obtain ⟨⟨j, hj, hjg⟩, hmax⟩ := h
    unfold Checkpoint.laterDate
    dsimp only
    by_cases hlt : g < m.updated
    · rw [if_pos hlt]
      refine ⟨⟨i, by simp, hupdated⟩, ?_⟩
      intro k hk u hu hmu
      rcases List.mem_append.mp hk with hk | hk
      · -- Such a time would have exceeded the greatest time so far.
        obtain ⟨mj, hmj⟩ := hmarked j hj
        obtain ⟨mk, hmk⟩ := hmarked k hk
        obtain ⟨-, hju, hjfinite, -⟩ := Item.marks_eq_ok_iff.mp hmj
        obtain ⟨-, hku, hkfinite, -⟩ := Item.marks_eq_ok_iff.mp hmk
        rw [hjg, Option.some.injEq] at hju
        rw [hu, Option.some.injEq] at hku
        rw [← hju] at hjfinite
        rw [← hku] at hkfinite
        exact hmax k hk u hu (Number.lt_of_lt_of_lt hjfinite hfinite hkfinite hlt hmu)
      · rw [List.mem_singleton] at hk
        rw [hk, hupdated, Option.some.injEq] at hu
        rw [← hu] at hmu
        exact hself hmu
    · rw [if_neg hlt]
      refine ⟨⟨j, List.mem_append_left _ hj, hjg⟩, ?_⟩
      intro k hk u hu
      rcases List.mem_append.mp hk with hk | hk
      · exact hmax k hk u hu
      · rw [List.mem_singleton] at hk
        rw [hk, hupdated, Option.some.injEq] at hu
        rw [← hu]
        exact hlt

namespace Checkpoint.Accounts

variable {c : Checkpoint} {taken : List Item} {resumes : Nat}

theorem items_eq (h : c.Accounts taken resumes)
    (hfits : taken.length ≤ Number.greatestUnsigned64) : c.items = taken.length :=
  h.items.trans (Number.wrap_of_le hfits)

theorem resumes_eq (h : c.Accounts taken resumes) (hfits : resumes ≤ Number.greatestUnsigned32) :
    c.resumes = resumes :=
  h.resumes.trans (Number.wrap_of_le hfits)

/-- A checkpoint at which nothing is done accounts for nothing. -/
theorem reset (c : Checkpoint) : c.reset.Accounts [] 0 :=
  ⟨fun _ hi => absurd hi List.not_mem_nil, rfl, rfl, rfl, rfl, rfl⟩

theorem markResumed (h : c.Accounts taken resumes) :
    c.markResumed.Accounts taken (resumes + 1) := by
  refine ⟨h.marked, h.items, h.lastUuid, h.maxDate, h.offset, ?_⟩
  show Number.wrap _ (c.resumes + 1) = _
  rw [h.resumes, Number.wrap_wrap_add]

/-- Recording an item keeps the account exact. -/
theorem recordItem (h : c.Accounts taken resumes) {i : Item} {m : Marks}
    (hm : i.marks = .ok m) : (c.recordItem i).Accounts (taken ++ [i]) resumes := by
  obtain ⟨huuid, -, -, hoffset⟩ := Item.marks_eq_ok_iff.mp hm
  rw [recordItem_of_marks hm]
  refine ⟨?_, ?_, ?_, h.maxDate.laterDate h.marked hm, ?_, h.resumes⟩
  · intro k hk
    rcases List.mem_append.mp hk with hk | hk
    · exact h.marked k hk
    · rw [List.mem_singleton] at hk
      exact ⟨m, hk ▸ hm⟩
  · show Number.wrap _ (c.items + 1) = _
    rw [h.items, Number.wrap_wrap_add, List.length_append, List.length_singleton]
  · show some m.uuid = _
    rw [List.getLast?_concat, Option.bind_some, huuid]
  · show m.offset.or c.offset = _
    rw [List.filterMap_append, List.getLast?_append, ← h.offset, ← hoffset]
    cases hi : i.offset? <;> simp [hi]

/-- Recording items keeps the account exact. -/
theorem recordAll (h : c.Accounts taken resumes) {items : List Item}
    (hm : ∀ i ∈ items, ∃ m, i.marks = .ok m) :
    (c.recordAll items).Accounts (taken ++ items) resumes := by
  induction items generalizing c taken with
  | nil =>
    rw [List.append_nil]
    exact h
  | cons i items ih =>
    obtain ⟨m, hi⟩ := hm i (List.mem_cons_self ..)
    have hstep := h.recordItem hi
    have hrest := ih hstep fun k hk => hm k (List.mem_cons_of_mem _ hk)
    rw [List.append_assoc, List.singleton_append] at hrest
    exact hrest

end Checkpoint.Accounts

/-! ## Histories of a job -/

/-- A run that a job is asked for, and the world in which it is. -/
structure RunCall (β κ : Type) where
  args : Fields
  archive : Option ArchiveArgs
  resume : Bool
  world : World β κ

/-- A job, with the items that its queue took since the last fresh run whose archive could be
    opened, the payloads that the queue appended since then, each with the name that it was
    appended under, and how many runs went on from an earlier one since then. -/
structure Ledger (β κ : Type) where
  job : Job β κ
  taken : List Item
  log : List (String × Bytes)
  resumes : Nat

/-- The log of a queue that keeps one in a run of a job, behind what was in it. -/
def RunCall.log {β κ : Type} (call : RunCall β κ) (job : Job β κ)
    (before : List (String × Bytes)) : List (String × Bytes) :=
  (job.logged.run call.args call.archive call.resume
    ⟨call.world.env, call.world.queue, before⟩).world.queue.2

/-- In a run, the payloads of the items that count as taken are appended, and no others. -/
theorem RunCall.log_eq {β κ : Type} (call : RunCall β κ) (job : Job β κ)
    (before : List (String × Bytes)) :
    call.log job before = before ++
      (job.run call.args call.archive call.resume call.world).items.map
        fun i => (job.queueName, i.bytes) := by
  unfold RunCall.log
  rw [job.run_logged]

namespace Ledger

variable {β κ : Type}

/-- Enters a run. -/
def enter (l : Ledger β κ) (call : RunCall β κ) : Ledger β κ :=
  let run := l.job.run call.args call.archive call.resume call.world
  match l.job.gate.ensure call.world.env.files call.archive with
  | .error _ => { l with job := run.job }
  | .ok _ =>
    if call.resume then
      ⟨run.job, l.taken ++ run.items, call.log l.job l.log, l.resumes + 1⟩
    else ⟨run.job, run.items, call.log l.job [], 0⟩

/-- The checkpoint of the job tells of the items of the ledger, which are those whose payloads
    were appended, and is still that of the job for which it was started. -/
structure Exact (l : Ledger β κ) (origin : Checkpoint) (name : String) : Prop where
  accounts : l.job.checkpoint.Accounts l.taken l.resumes
  origin : l.job.checkpoint.reset = origin
  queueName : l.job.queueName = name
  log : l.log = l.taken.map fun i => (name, i.bytes)

/-- A run keeps the ledger exact, wherever the run ends. -/
theorem Exact.enter {l : Ledger β κ} {origin : Checkpoint} {name : String}
    (h : l.Exact origin name) (call : RunCall β κ) : (l.enter call).Exact origin name := by
  have hname : ∀ resume,
      (l.job.run call.args call.archive resume call.world).job.queueName = name :=
    fun resume => (l.job.run_queueName ..).trans h.queueName
  unfold Ledger.enter
  cases hgate : l.job.gate.ensure call.world.env.files call.archive with
  | error e =>
    dsimp only
    rw [Job.run_of_ensure_error hgate]
    exact h
  | ok gate =>
    obtain ⟨hcheckpoint, hmarked⟩ := Job.run_checkpoint hgate call.args call.resume
    have horigin := congrArg Checkpoint.reset hcheckpoint
    rw [Checkpoint.reset_recordAll] at horigin
    dsimp only
    cases hresume : call.resume with
    | true =>
      rw [hresume] at hcheckpoint hmarked horigin
      rw [if_pos rfl]
      refine ⟨?_, horigin.trans h.origin, hname _, ?_⟩
      · have hstart := h.accounts.markResumed.recordAll hmarked
        show Checkpoint.Accounts _ _ _
        rw [hcheckpoint]
        exact hstart
      · show call.log l.job l.log = _
        rw [call.log_eq, h.queueName, h.log, hresume, List.map_append]
    | false =>
      rw [hresume] at hcheckpoint hmarked horigin
      rw [if_neg Bool.false_ne_true]
      refine ⟨?_, horigin.trans h.origin, hname _, ?_⟩
      · have hstart := (Checkpoint.Accounts.reset l.job.checkpoint).recordAll hmarked
        show Checkpoint.Accounts _ _ _
        rw [hcheckpoint]
        exact hstart
      · show call.log l.job [] = _
        rw [call.log_eq, h.queueName, hresume, List.nil_append]

/-- Runs keep the ledger exact. -/
theorem Exact.enterAll {l : Ledger β κ} {origin : Checkpoint} {name : String}
    (h : l.Exact origin name) (calls : List (RunCall β κ)) :
    (calls.foldl Ledger.enter l).Exact origin name := by
  induction calls generalizing l with
  | nil => exact h
  | cons call calls ih => exact ih (h.enter call)

end Ledger

/-- A job over a script, whose queue refuses its second push. -/
def refusedPush : Job Scripted.Play Queue.Counted :=
  ⟨"job", "task", "item", Scripted.backend ⟨"feed", ["item"], false, true⟩,
    Queue.refusing [(1, .io "full")], "items", .shut, .start "job" "task" "feed" "item"⟩

/-- A run over one entry of a script, after so many pushes. -/
def scriptedCall (resume : Bool) (pushes : Nat) (updates : List (String × Int)) :
    RunCall Scripted.Play Queue.Counted :=
  let items := updates.map fun (uuid, updated) =>
    Except.ok ⟨[(Item.updatedField, .ofInt updated), (Item.uuidField, .string uuid)]⟩
  ⟨[], none, resume,
    ⟨⟨⟨[], []⟩, ⟨fun _ => ⟨0, 0⟩, 0⟩, ⟨[.gives items], .gives [], []⟩⟩, .empty, pushes⟩⟩

end Harvest
