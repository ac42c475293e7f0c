/-
  Harvest.Proofs.Job.Delivery

  What one run delivers: the results of its stream in order, up to the first that it cannot pass
  on. That is an error of the backend, an item that lacks what a job has to know of it, or an
  item that the queue refuses (`Halts`). A queue that is traced keeps all that it was asked to
  append, with its answers, so that nothing that is pushed escapes. The payloads that it takes say
  what the items are (`run_delivers_prefix`).
-/
import Harvest.Proofs.Job.Account
import Harvest.Proofs.Queue.Payload
import Mathlib.Data.List.Forall2

namespace Harvest

/-! ## Traced queues -/

/-- A payload that a queue was asked to append under a name, and what it answered. -/
structure Push where
  name : String
  payload : Bytes
  reply : Except QueueError Unit

/-- The payloads that a queue took. -/
def Push.accepted (pushes : List Push) : List Bytes :=
  (pushes.filter fun p => p.reply.isOk).map Push.payload

/-- A queue that keeps, beside what it keeps anyway, all that it was asked to append. -/
def Queue.traced {κ : Type} (q : Queue κ) : Queue (κ × List Push) where
  push name payload store :=
    let (reply, after) := q.push name payload ⟨store.files, store.own.1⟩
    (reply, ⟨after.files, after.own, store.own.2 ++ [⟨name, payload, reply⟩]⟩)

theorem Queue.traced_push {κ : Type} {q : Queue κ} {name : String} {payload : Bytes}
    {files : FileTree} {own : κ} {reply : Except QueueError Unit} {after : Store κ}
    (h : q.push name payload ⟨files, own⟩ = (reply, after)) (pushes : List Push) :
    q.traced.push name payload ⟨files, own, pushes⟩ =
      (reply, ⟨after.files, after.own, pushes ++ [⟨name, payload, reply⟩]⟩) := by
  simp only [traced, h]

/-- The world of a job with a queue that was asked to append nothing so far. -/
def World.traced {β κ : Type} (world : World β κ) (pushes : List Push) :
    World β (κ × List Push) :=
  ⟨world.env, world.queue, pushes⟩

/-! ## Items that can be passed on -/

namespace Item

/-- An item of which a job can know what it has to: it has an identifier and a finite time of
    update. -/
def Sound (i : Item) : Prop :=
  (∃ uuid, i.uuid? = some uuid) ∧ ∃ updated, i.updated? = some updated ∧ updated.isFinite = true

theorem sound_of_marks {i : Item} {m : Marks} (h : i.marks = .ok m) : i.Sound := by
  obtain ⟨huuid, hupdated, hfinite, -⟩ := marks_eq_ok_iff.mp h
  exact ⟨⟨m.uuid, huuid⟩, m.updated, hupdated, hfinite⟩

/-- An item that lacks its marks lacks its identifier, or else a finite time of update. -/
theorem marks_error_cases {i : Item} {e : JobError} (h : i.marks = .error e) :
    (i.uuid? = none ∧ e = .invalidItem "item has no uuid") ∨
      ∃ uuid, i.uuid? = some uuid ∧ (∀ u, i.updated? = some u → u.isFinite = false) ∧
        e = .invalidItem ("item " ++ uuid ++ " has no valid updated_on") := by
  unfold marks at h
  split at h
  · next hnone =>
    cases h
    exact .inl ⟨hnone, rfl⟩
  · next uuid huuid =>
    split at h
    · next hundated =>
      cases h
      refine .inr ⟨uuid, huuid, fun u hu => ?_, rfl⟩
      rw [hu, Option.filter_eq_none_iff] at hundated
      exact Bool.not_eq_true _ ▸ hundated u rfl
    · cases h

end Item

/-! ## Streams that give a list -/

/-- A stream gives a list, whatever becomes of the world between two draws. -/
inductive Draw.Lists {σ α : Type} : Draw σ α → List α → Prop where
  | stop {s : σ} : Lists (.stop s) []
  | item {s : σ} {a : α} {rest : σ → Draw σ α} {as : List α} (h : ∀ s, Lists (rest s) as) :
      Lists (.item a s rest) (a :: as)

theorem Feed.lists_ofList {σ α : Type} (as : List α) (s : σ) : (Feed.ofList as s).Lists as := by
  induction as generalizing s with
  | nil => exact .stop
  | cons a as ih => exact .item ih

/-! ## What a run delivers -/

/-- Why a run of a job comes to its end in front of the results that are left, what it ends with,
    and what it pushes there to the queue of a name. -/
inductive Halts (job name : String) :
    List (Except BackendError Item) → Except JobError Unit → List Push → Prop where
  | ended : Halts job name [] (.ok ()) []
  | failed (e : BackendError) (rest : List (Except BackendError Item)) :
      Halts job name (.error e :: rest) (.error (.backend e)) []
  | unidentified {i : Item} (huuid : i.uuid? = none) (rest : List (Except BackendError Item)) :
      Halts job name (.ok i :: rest) (.error (.invalidItem "item has no uuid")) []
  | undated {i : Item} {uuid : String} (huuid : i.uuid? = some uuid)
      (hupdated : ∀ u, i.updated? = some u → u.isFinite = false)
      (rest : List (Except BackendError Item)) :
      Halts job name (.ok i :: rest)
        (.error (.invalidItem ("item " ++ uuid ++ " has no valid updated_on"))) []
  | refused {i : Item} (hsound : i.Sound) (e : QueueError)
      (rest : List (Except BackendError Item)) :
      Halts job name (.ok i :: rest) (.error (.queue e))
        [⟨name, (i.tagged job).bytes, .error e⟩]

/-- A run that ends well has nothing left. -/
theorem Halts.ok_iff {job name : String} {rest : List (Except BackendError Item)}
    {result : Except JobError Unit} {last : List Push} (h : Halts job name rest result last) :
    result = .ok () ↔ rest = [] := by
  cases h <;> simp

/-- At the end of a run the queue takes nothing. -/
theorem Halts.accepted {job name : String} {rest : List (Except BackendError Item)}
    {result : Except JobError Unit} {last : List Push} (h : Halts job name rest result last) :
    Push.accepted last = [] := by
  cases h <;> rfl

/-- The pushes of items that a queue took. -/
def Item.pushes (job name : String) (items : List Item) : List Push :=
  items.map fun i => ⟨name, (i.tagged job).bytes, .ok ()⟩

/-- What a run of a job delivers of the results of its stream: some items from the first on, in
    front of what it halts at. Beside what it ends with, and its checkpoint then, it has the items
    that the queue took, and all that the queue was asked to append. -/
structure Delivers (job name : String) (start : Checkpoint)
    (results : List (Except BackendError Item)) (result : Except JobError Unit)
    (stop : Checkpoint) (taken : List Item) (pushes : List Push) (before : List Item) : Prop where
  /-- In front of what the run halts at are items of which it knows what it has to; the queue
      takes them, and it is asked for nothing behind them but what the run halts at. -/
  halts : ∃ rest last, results = before.map .ok ++ rest ∧ Halts job name rest result last ∧
    pushes = Item.pushes job name before ++ last
  sound : ∀ i ∈ before, i.Sound
  /-- The run ends well exactly if it delivers everything. -/
  ok_iff : result = .ok () ↔ results = before.map .ok
  taken : taken = before.map fun i => i.tagged job
  /-- Just these items are recorded. -/
  stop : stop = start.recordAll before
  /-- What the queue is given of an item has the version and the job, and all other fields of the
      item as they were. -/
  fields : ∀ i ∈ before, ∀ field, (i.tagged job).get? field =
    if field = Item.jobField then some (.string job)
    else if field = Item.versionField then some (.string Item.version)
    else i.get? field
  /-- The payloads that the queue takes are texts that say what these items are, with the version
      and the job in them. -/
  written : List.Forall₂ (fun i payload => i.Ordered → (i.tagged job).WrittenAs payload) before
    (Push.accepted pushes)
  /-- So a job knows of it what it knows of the item. -/
  contract : ∀ i ∈ before, (i.tagged job).uuid? = i.uuid? ∧
    (i.tagged job).updated? = i.updated? ∧ (i.tagged job).offset? = i.offset?

namespace Delivers

variable {job name : String} {start : Checkpoint} {results rest : List (Except BackendError Item)}
  {result : Except JobError Unit} {last pushes : List Push}

/-- A run that delivers nothing more. -/
theorem nothing (h : Halts job name rest result last) (start : Checkpoint) :
    Delivers job name start rest result start [] last [] where
  halts := ⟨rest, last, rfl, h, rfl⟩
  sound _ hi := nomatch hi
  ok_iff := h.ok_iff
  taken := rfl
  stop := rfl
  fields _ hi := nomatch hi
  written := by
    rw [h.accepted]
    exact .nil
  contract _ hi := nomatch hi

/-- A run that delivers an item and then goes on. -/
theorem cons {i : Item} {stop : Checkpoint} {taken before : List Item} (hi : i.Sound)
    (h : Delivers job name (start.recordItem i) results result stop taken pushes before) :
    Delivers job name start (.ok i :: results) result stop (i.tagged job :: taken)
      (⟨name, (i.tagged job).bytes, .ok ()⟩ :: pushes) (i :: before) where
  halts := by
    obtain ⟨rest, last, hresults, hhalts, hpushes⟩ := h.halts
    exact ⟨rest, last, congrArg (.ok i :: ·) hresults, hhalts,
      congrArg (_ :: ·) hpushes⟩
  sound := List.forall_mem_cons.mpr ⟨hi, h.sound⟩
  ok_iff := h.ok_iff.trans (by rw [List.map_cons, List.cons_inj_right])
  taken := congrArg (i.tagged job :: ·) h.taken
  stop := h.stop
  fields _ _ field := Item.get?_tagged _ job field
  written := .cons (fun hi => Item.writtenAs_bytes (hi.tagged job)) h.written
  contract i _ := ⟨i.uuid?_tagged job, i.updated?_tagged job, i.offset?_tagged job⟩

end Delivers

namespace Outlet

variable {β κ : Type} {outlet : Outlet κ} {i : Item} {m : Marks} {env : Env β} {own : κ}
  {t : Store κ}

/-- An item that lacks its marks ends what is passed on. -/
theorem forwardAll_of_unmarked {e : JobError} (hm : i.marks = .error e) (env : Env β)
    (rest : Env β → Draw (Env β) (Except BackendError Item)) (c : Checkpoint) (own : κ) :
    outlet.forwardAll (.item (.ok i) env rest) c own = ⟨.error e, c, [], env, own⟩ := by
  simp only [forwardAll, forward, hm]

/-- So does an item that the queue refuses. -/
theorem forwardAll_of_refused {e : QueueError} (hm : i.marks = .ok m)
    (hp : outlet.queue.push outlet.name i.bytes ⟨env.files, own⟩ = (.error e, t))
    (rest : Env β → Draw (Env β) (Except BackendError Item)) (c : Checkpoint) :
    outlet.forwardAll (.item (.ok i) env rest) c own =
      ⟨.error (.queue e), c, [], { env with files := t.files }, t.own⟩ := by
  simp only [forwardAll, forward, hm, hp]

/-- Behind an item that the queue takes goes on what is passed on. -/
theorem forwardAll_of_taken (hm : i.marks = .ok m)
    (hp : outlet.queue.push outlet.name i.bytes ⟨env.files, own⟩ = (.ok (), t))
    (rest : Env β → Draw (Env β) (Except BackendError Item)) (c : Checkpoint) :
    outlet.forwardAll (.item (.ok i) env rest) c own =
      (outlet.forwardAll (rest { env with files := t.files }) (c.recordItem i) t.own).cons i := by
  simp only [forwardAll, forward, hm, hp, Checkpoint.recordItem_of_marks hm]

end Outlet

/-- Passing on a stream that gives a list delivers its items up to the first that cannot be passed
    on. Tracing the queue tells what it was asked to append, and changes nothing else. -/
theorem Outlet.forwardAll_delivers {β κ : Type} (q : Queue κ) (job name : String)
    {d : Draw (Env β) (Except BackendError Item)} {results : List (Except BackendError Item)}
    (h : d.Lists results) (c : Checkpoint) (own : κ) (pushes : List Push) :
    let tagged := d.map (Except.map fun i => i.tagged job)
    let plain := Outlet.forwardAll ⟨q, name⟩ tagged c own
    ∃ before more, Delivers job name c results plain.result plain.checkpoint plain.items more
        before ∧
      Outlet.forwardAll ⟨q.traced, name⟩ tagged c (own, pushes) =
        ⟨plain.result, plain.checkpoint, plain.items, plain.world.traced (pushes ++ more)⟩ := by
  induction h generalizing c own pushes with
  | @stop env =>
    refine ⟨[], [], .nothing .ended c, ?_⟩
    rw [List.append_nil]
    rfl
  | @item env r rest results hrest ih =>
    cases r with
    | error e =>
      refine ⟨[], [], .nothing (.failed e results) c, ?_⟩
      rw [List.append_nil]
      rfl
    | ok i =>
      intro tagged plain
      have hmarks : (i.tagged job).marks = i.marks := i.marks_tagged job
      let left : Env β → Draw (Env β) (Except BackendError Item) :=
        fun env => (rest env).map (Except.map fun i => i.tagged job)
      -- Each way to end with the item is one to halt at it.
      rcases Outlet.push_cases ⟨q, name⟩ (i.tagged job) ⟨env.files, own⟩ with
        ⟨e, hm⟩ | ⟨m, hm, ⟨e, t, hp⟩ | ⟨t, hp⟩⟩
      · have hplain : plain = ⟨.error e, c, [], env, own⟩ :=
          forwardAll_of_unmarked hm env left c own
        have htraced : Outlet.forwardAll ⟨q.traced, name⟩ tagged c (own, pushes) =
            ⟨.error e, c, [], env, own, pushes⟩ := forwardAll_of_unmarked hm env left c _
        rw [hplain, htraced]
        refine ⟨[], [], .nothing ?_ c, ?_⟩
        · rcases Item.marks_error_cases (hmarks.symm.trans hm) with
            ⟨huuid, rfl⟩ | ⟨uuid, huuid, hupdated, rfl⟩
          · exact .unidentified huuid results
          · exact .undated huuid hupdated results
        · rw [List.append_nil]
          rfl
      · have hsound : i.Sound := Item.sound_of_marks (hmarks.symm.trans hm)
        have hplain : plain = _ := forwardAll_of_refused hm hp left c
        have hpushed := Queue.traced_push hp pushes
        have htraced : Outlet.forwardAll ⟨q.traced, name⟩ tagged c (own, pushes) = _ :=
          forwardAll_of_refused hm hpushed left c
        rw [hplain, htraced]
        exact ⟨[], [_], .nothing (.refused hsound e results) c, rfl⟩
      · have hsound : i.Sound := Item.sound_of_marks (hmarks.symm.trans hm)
        have hrecord : c.recordItem (i.tagged job) = c.recordItem i := by
          unfold Checkpoint.recordItem
          rw [hmarks]
        have hplain : plain = _ := forwardAll_of_taken hm hp left c
        have hpushed := Queue.traced_push hp pushes
        have htraced : Outlet.forwardAll ⟨q.traced, name⟩ tagged c (own, pushes) = _ :=
          forwardAll_of_taken hm hpushed left c
        rw [hplain, htraced, hrecord]
        obtain ⟨before, more, hdelivers, hrest⟩ := ih { env with files := t.files }
          (c.recordItem i) t.own (pushes ++ [⟨name, (i.tagged job).bytes, .ok ()⟩])
        refine ⟨i :: before, _ :: more, hdelivers.cons hsound, ?_⟩
        show Passage.cons _ (Outlet.forwardAll ⟨q.traced, name⟩ _ _ _) = _
        rw [hrest, List.append_assoc]
        rfl

/-- The job with a queue that is traced. -/
def Job.traced {β κ : Type} (j : Job β κ) : Job β (κ × List Push) :=
  { j with queue := j.queue.traced }

theorem Job.run_of_items {β κ : Type} {j : Job β κ} {args : Fields}
    {archive : Option ArchiveArgs} {resume : Bool} {world : World β κ} {gate : Gate}
    {items : Items β} {env : Env β} (hgate : j.gate.ensure world.env.files archive = .ok gate)
    (hitems : gate.items j.backend j.category (j.runArgs args resume) archive world.env =
      (.ok items, env)) :
    let p := j.outlet.forwardAll (items.tagged j.jobId env) (j.startPoint resume) world.queue
    j.run args archive resume world =
      ⟨p.result, { j with gate, checkpoint := p.checkpoint }, p.items, p.world⟩ := by
  unfold run
  rw [hgate]
  dsimp only
  rw [hitems]

/-- A run whose backend gives a list of results delivers the items in front of the first that is an
    error, lacks its identifier or a finite time of update, or is refused by the queue. With this
    the run ends, or it ends well if there is none. The queue appends the items that are
    delivered, with the version and the job in them, each as a text that is read as the item is;
    and it is asked for nothing behind the one that it refuses. Just the items that are delivered
    are recorded. -/
theorem run_delivers_prefix {β κ : Type} {j : Job β κ} {args : Fields}
    {archive : Option ArchiveArgs} {resume : Bool} {world : World β κ} {gate : Gate}
    {items : Items β} {env : Env β} {results : List (Except BackendError Item)}
    (hgate : j.gate.ensure world.env.files archive = .ok gate)
    (hitems : gate.items j.backend j.category (j.runArgs args resume) archive world.env =
      (.ok items, env))
    (hlists : (items env).Lists results) :
    let run := j.run args archive resume world
    ∃ before pushes, Delivers j.jobId j.queueName (j.startPoint resume) results run.result
        run.job.checkpoint run.items pushes before ∧
      j.traced.run args archive resume (world.traced []) =
        ⟨run.result, run.job.traced, run.items, run.world.traced pushes⟩ := by
  have hplain := Job.run_of_items hgate hitems
  have htraced : j.traced.run args archive resume (world.traced []) = _ :=
    Job.run_of_items hgate hitems
  intro run
  have hrun : run = _ := hplain
  obtain ⟨before, pushes, hdelivers, hpassed⟩ := Outlet.forwardAll_delivers j.queue j.jobId
    j.queueName hlists (j.startPoint resume) world.queue []
  refine ⟨before, pushes, ?_, ?_⟩
  · rw [hrun]
    exact hdelivers
  · have hpassed : j.traced.outlet.forwardAll (items.tagged j.jobId env) (j.startPoint resume)
        (world.traced []).queue = _ := hpassed
    rw [htraced, hrun]
    rw [show j.traced.jobId = j.jobId from rfl,
      show j.traced.startPoint resume = j.startPoint resume from rfl, hpassed]
    rfl

/-- Two items that can be passed on, with one that has no identifier between them. -/
def brokenResults : List (Except BackendError Item) :=
  let good : Item := ⟨[(Item.updatedField, .ofInt 100), (Item.uuidField, .string "a")]⟩
  [.ok good, .ok .empty, .ok good]

/-- A job whose backend plays a script. -/
def scriptedJob : Job Scripted.Play Memory :=
  ⟨"job", "task", "item", Scripted.backend ⟨"feed", ["item"], false, true⟩, Queue.memory,
    "items", .shut, .start "job" "task" "feed" "item"⟩

/-- The world of a script that gives the results, with a queue to which nothing was pushed. -/
def brokenScript : World Scripted.Play Memory :=
  ⟨⟨⟨[], []⟩, ⟨fun _ => ⟨0, 0⟩, 0⟩, ⟨[.gives brokenResults], .gives [], []⟩⟩, .empty⟩

/-- Of the two items that can be passed on, the one in front is delivered, and the one behind is
    not. -/
theorem delivers_front_of_unidentified :
    let run := scriptedJob.run [] none false brokenScript
    run.items.length = 1 ∧
      ∃ before pushes, Delivers "job" "items" (.start "job" "task" "feed" "item") brokenResults
        run.result run.job.checkpoint run.items pushes before := by
  intro run
  have hgate : scriptedJob.gate.ensure brokenScript.env.files none = .ok .shut := rfl
  obtain ⟨env, hitems⟩ : ∃ env, Gate.shut.items scriptedJob.backend scriptedJob.category
      (scriptedJob.runArgs [] false) none brokenScript.env =
        (.ok (Feed.ofList brokenResults), env) := ⟨_, rfl⟩
  have hlists := Feed.lists_ofList brokenResults env
  obtain ⟨before, pushes, hdelivers, -⟩ := run_delivers_prefix hgate hitems hlists
  exact ⟨by decide +kernel, before, pushes, hdelivers⟩

end Harvest
