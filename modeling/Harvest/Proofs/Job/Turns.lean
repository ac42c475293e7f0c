/-
  Harvest.Proofs.Job.Turns

  A run turn by turn. In a turn an item is drawn from the stream and pushed to the queue, which
  sees the files as the draw has left them. Turns are what a run consists of
  (`forwardAll_turned`), and tell of every moment of it what its result does not. A run that
  archives what it fetches has a record in the archive before the queue is asked to take its item
  (`archived_before_pushed`).
-/
import Harvest.Proofs.Job.Retries
import Harvest.Proofs.Job.Storing

namespace Harvest

/-! ## Turns -/

/-- A turn of a run: the draw from the stream, and if an item was pushed, what the queue replied
    and how it left what it works in. -/
structure Turn (β κ : Type) where
  before : Env β
  drawn : Option (Except BackendError Item)
  after : Env β
  queue : κ
  reply : Option (Except QueueError Unit × Store κ)

namespace Turn

variable {β κ : Type}

/-- The item that the queue took in a turn. -/
def taken? (t : Turn β κ) : Option Item :=
  match t.drawn, t.reply with
  | some (.ok item), some (.ok (), _) => some item
  | _, _ => none

/-- The world after a turn. -/
def world (t : Turn β κ) : World β κ :=
  match t.reply with
  | none => ⟨t.after, t.queue⟩
  | some (_, store) => ⟨{ t.after with files := store.files }, store.own⟩

end Turn

namespace Outlet

variable {β κ : Type}

/-- The turns in which the items of a stream are passed on. -/
def turns (outlet : Outlet κ) :
    Env β → Draw (Env β) (Except BackendError Item) → κ → List (Turn β κ)
  | before, .stop env, own => [⟨before, none, env, own, none⟩]
  | before, .item (.error e) env _, own => [⟨before, some (.error e), env, own, none⟩]
  | before, .item (.ok item) env rest, own =>
    match item.marks with
    | .error _ => [⟨before, some (.ok item), env, own, none⟩]
    | .ok _ =>
      let reply := outlet.queue.push outlet.name item.bytes ⟨env.files, own⟩
      let turn : Turn β κ := ⟨before, some (.ok item), env, own, some reply⟩
      match reply with
      | (.error _, _) => [turn]
      | (.ok (), _) => turn :: outlet.turns turn.world.env (rest turn.world.env) turn.world.queue

section

variable {outlet : Outlet κ} {before : Env β} {item : Item} {env : Env β}
  {rest : Env β → Draw (Env β) (Except BackendError Item)} {own : κ}

theorem turns_of_unmarked {e : JobError} (h : item.marks = .error e) :
    outlet.turns before (.item (.ok item) env rest) own =
      [⟨before, some (.ok item), env, own, none⟩] := by
  rw [turns, h]

theorem turns_of_refused {m : Marks} (hm : item.marks = .ok m) {e : QueueError} {t : Store κ}
    (h : outlet.queue.push outlet.name item.bytes ⟨env.files, own⟩ = (.error e, t)) :
    outlet.turns before (.item (.ok item) env rest) own =
      [⟨before, some (.ok item), env, own, some (.error e, t)⟩] := by
  rw [turns, hm]
  dsimp only
  rw [h]

theorem turns_of_accepted {m : Marks} (hm : item.marks = .ok m) {t : Store κ}
    (h : outlet.queue.push outlet.name item.bytes ⟨env.files, own⟩ = (.ok (), t)) :
    outlet.turns before (.item (.ok item) env rest) own =
      ⟨before, some (.ok item), env, own, some (.ok (), t)⟩ ::
        outlet.turns { env with files := t.files } (rest { env with files := t.files })
          t.own := by
  rw [turns, hm]
  dsimp only
  rw [h]
  rfl

end

end Outlet

/-- Turns that lead to what passing on a stream came to. -/
structure Passage.Turned {β κ : Type} (p : Passage β κ) (outlet : Outlet κ)
    (turns : List (Turn β κ)) : Prop where
  /-- The items that the queue took are those of the turns, in order. -/
  items : p.items = turns.filterMap Turn.taken?
  /-- The world is the one after the last turn. -/
  world : turns.getLast?.map Turn.world = some p.world
  /-- What is pushed is the item that was drawn, and the queue sees the files after the draw. -/
  pushed : ∀ t ∈ turns, ∀ reply, t.reply = some reply → ∃ item, t.drawn = some (.ok item) ∧
    reply = outlet.queue.push outlet.name item.bytes ⟨t.after.files, t.queue⟩
  /-- An error of the stream is the end of the run. -/
  failed : ∀ t ∈ turns, ∀ e, t.drawn = some (.error e) → t.reply = none ∧
    turns.getLast? = some t ∧ p.result = .error (.backend e)

namespace Outlet

variable {β κ : Type}

/-- The turns of a stream lead to what passing it on comes to. -/
theorem forwardAll_turned (outlet : Outlet κ) (before : Env β)
    (d : Draw (Env β) (Except BackendError Item)) (c : Checkpoint) (own : κ) :
    (outlet.forwardAll d c own).Turned outlet (outlet.turns before d own) := by
  induction d generalizing before c own with
  | stop env => exact ⟨rfl, rfl, by simp [turns], by simp [turns]⟩
  | item r env rest ih =>
    cases r with
    | error e => exact ⟨rfl, rfl, by simp [turns], by simp [turns, forwardAll]⟩
    | ok item =>
      have hpasses := outlet.forwardAll_passes item c env rest own
      generalize outlet.forwardAll (.item (.ok item) env rest) c own = p at hpasses ⊢
      cases hpasses with
      | unmarked hm =>
        rw [turns_of_unmarked hm]
        exact ⟨rfl, rfl, by simp, by simp⟩
      | refused hm hp =>
        rw [turns_of_refused hm hp]
        exact ⟨rfl, rfl, by simp [hp], by simp⟩
      | @accepted m t hm hp =>
        obtain ⟨hitems, hworld, hpushed, hfailed⟩ := ih { env with files := t.files }
          { env with files := t.files } (c.recordItem item) t.own
        -- The last turn of the rest is the last of all.
        rw [turns_of_accepted hm hp]
        obtain ⟨last, hlast, hend⟩ := Option.map_eq_some_iff.mp hworld
        constructor
        · show item :: _ = _
          rw [hitems]
          rfl
        · rw [List.getLast?_cons, hlast]
          exact congrArg some hend
        · intro turn hturn reply hreply
          rcases List.mem_cons.mp hturn with rfl | hturn
          · cases hreply
            exact ⟨item, rfl, hp.symm⟩
          · exact hpushed turn hturn reply hreply
        · intro turn hturn e he
          rcases List.mem_cons.mp hturn with rfl | hturn
          · cases he
          · obtain ⟨hnone, hturnLast, hresult⟩ := hfailed turn hturn e he
            rw [List.getLast?_cons, hturnLast]
            exact ⟨hnone, rfl, hresult⟩

end Outlet

/-! ## Turns that archive -/

namespace Turn

variable {β κ : Type}

/-- A turn archives a record and gives its item: the line of its response is appended to the
    archive, and the queue sees the item only then. -/
structure Archives (t : Turn β κ) (a : Archive) (task : Lines.Task)
    (P : Int → Json → Item → Prop) (e : Entry) : Prop where
  record : P e.line e.record e.item
  drawn : t.drawn = some (.ok e.item)
  response : e.response =
    Archive.offered task.category task.origin (Record.payload e.line e.record) t.before
  appended : a.append task.category e.response.line t.before.files = (.ok (), t.after.files)
  /-- Whatever the archive held, it now ends with the line. -/
  last : ∃ bytes, a.found task.category t.after.files = .ok (.ok (bytes ++ e.response.line))
  behind : ∀ bytes, a.Holds task.category t.before.files bytes →
    a.found task.category t.after.files = .ok (.ok (bytes ++ e.response.line))

/-- A turn gives no item: the stream has ended or its file could not be read, or a record was
    found that could not be stored. -/
inductive Fails (t : Turn β κ) (disk : Disk β) (a : Archive) (task : Lines.Task)
    (P : Int → Json → Item → Prop) : Prop where
  | ended (h : t.drawn = none) (hsame : t.after = t.before)
  | unread (e : BackendError) (h : t.drawn = some (.error e)) (hsame : t.after = t.before)
  | unstored {line : Int} {record : Json} {item : Item} {e : ArchiveError}
      (hrecord : P line record item)
      (hstore : a.store task.category task.origin (Record.payload line record) t.before disk =
        (.error e, t.after))
      (h : t.drawn = some (.error (.archive e)))

/-- A draw that stores a record makes a turn that archives it, whatever the queue replies. -/
theorem archives_of_store {disk : Disk β} {a : Archive} {task : Lines.Task}
    {P : Int → Json → Item → Prop} {line : Int} {record : Json} {item : Item} {r : Response}
    {env env' : Env β} (hrecord : P line record item)
    (h : a.store task.category task.origin (Record.payload line record) env disk =
      (.ok r, env'))
    (own : κ) (reply : Option (Except QueueError Unit × Store κ)) :
    Archives ⟨env, some (.ok item), env', own, reply⟩ a task P ⟨line, record, item, r⟩ := by
  obtain ⟨hr, happend, -⟩ := Archive.store_ok h
  exact ⟨hrecord, rfl, hr, happend, Archive.found_of_append happend,
    fun bytes hbytes => Archive.append_ok happend hbytes⟩

end Turn

/-- Every turn of a stream that stores what it gives archives a record and gives its item, or it
    gives no item. -/
theorem Outlet.turns_store {β κ : Type} {disk : Disk β} {task : Lines.Task} {a : Archive}
    {P : Int → Json → Item → Prop} {number : Int} {env : Env β}
    {d : Draw (Env β) (Except BackendError Item)} (outlet : Outlet κ)
    (h : d.Stores disk task a P (fun _ => True) number env) (own : κ) :
    ∀ t ∈ outlet.turns env d own, (∃ e, t.Archives a task P e) ∨ t.Fails disk a task P := by
  induction h generalizing own with
  | stop =>
    intro t ht
    rw [List.mem_singleton.mp ht]
    exact .inr (.ended rfl rfl)
  | error e =>
    intro t ht
    rw [List.mem_singleton.mp ht]
    exact .inr (.unread e rfl rfl)
  | unstored hnumber hrecord h =>
    intro t ht
    rw [List.mem_singleton.mp ht]
    exact .inr (.unstored hrecord h rfl)
  | @stored number line record item r env moved rest hnumber hrecord h hrest ih =>
    -- Whatever the queue replies, the line of the record is in the archive before it is asked.
    have harchives := Turn.archives_of_store hrecord h own
    intro t ht
    rcases outlet.push_cases item ⟨moved.files, own⟩ with
      ⟨e, hm⟩ | ⟨m, hm, ⟨e, after, hp⟩ | ⟨after, hp⟩⟩
    · rw [turns_of_unmarked hm, List.mem_singleton] at ht
      rw [ht]
      exact .inl ⟨_, harchives none⟩
    · rw [turns_of_refused hm hp, List.mem_singleton] at ht
      rw [ht]
      exact .inl ⟨_, harchives _⟩
    · rw [turns_of_accepted hm hp] at ht
      rcases List.mem_cons.mp ht with rfl | ht
      · exact .inl ⟨_, harchives _⟩
      · exact ih { moved with files := after.files } trivial after.own t ht

/-! ## The turns of a run -/

namespace Job

variable {β κ : Type}

/-- The turns of a run. A run whose archive or whose stream cannot be opened has none. -/
def turns (j : Job β κ) (args : Fields) (archive : Option ArchiveArgs) (resume : Bool)
    (world : World β κ) : List (Turn β κ) :=
  match j.gate.ensure world.env.files archive with
  | .error _ => []
  | .ok gate =>
    match gate.items j.backend j.category (j.runArgs args resume) archive world.env with
    | (.error _, _) => []
    | (.ok items, env) => j.outlet.turns env (items.tagged j.jobId env) world.queue

/-- A run whose stream is opened passes it on; any other run takes nothing. -/
theorem run_cases (j : Job β κ) (args : Fields) (archive : Option ArchiveArgs) (resume : Bool)
    (world : World β κ) :
    (j.turns args archive resume world = [] ∧ (j.run args archive resume world).items = []) ∨
      ∃ gate items env, j.gate.ensure world.env.files archive = .ok gate ∧
        gate.items j.backend j.category (j.runArgs args resume) archive world.env =
          (.ok items, env) ∧
        j.turns args archive resume world =
          j.outlet.turns env (items.tagged j.jobId env) world.queue ∧
        let p := j.outlet.forwardAll (items.tagged j.jobId env) (j.startPoint resume) world.queue
        j.run args archive resume world =
          ⟨p.result, { j with gate, checkpoint := p.checkpoint }, p.items, p.world⟩ := by
  unfold turns run
  cases hgate : j.gate.ensure world.env.files archive with
  | error e => exact .inl ⟨rfl, rfl⟩
  | ok gate =>
    dsimp only
    cases hitems : gate.items j.backend j.category (j.runArgs args resume) archive world.env with
    | mk opened env =>
      cases opened with
      | error e => exact .inl ⟨rfl, rfl⟩
      | ok items => exact .inr ⟨gate, items, env, rfl, hitems, rfl, rfl⟩

/-- A job goes on as another one: all but its checkpoint and the archive that is open is what it
    was, and there is still an archive open if there was one. -/
structure Continues (j k : Job β κ) : Prop where
  backend : k.backend = j.backend
  category : k.category = j.category
  jobId : k.jobId = j.jobId
  outlet : k.outlet = j.outlet
  archive : j.gate.archive.isSome = true → k.gate.archive.isSome = true

theorem Continues.refl (j : Job β κ) : j.Continues j := ⟨rfl, rfl, rfl, rfl, id⟩

theorem Continues.trans {j k l : Job β κ} (h : j.Continues k) (g : k.Continues l) :
    j.Continues l where
  backend := g.backend.trans h.backend
  category := g.category.trans h.category
  jobId := g.jobId.trans h.jobId
  outlet := g.outlet.trans h.outlet
  archive := g.archive ∘ h.archive

theorem run_continues (j : Job β κ) (args : Fields) (archive : Option ArchiveArgs)
    (resume : Bool) (world : World β κ) :
    j.Continues (j.run args archive resume world).job := by
  unfold run
  cases hgate : j.gate.ensure world.env.files archive with
  | error e => exact .refl j
  | ok gate =>
    dsimp only
    split
    · exact ⟨rfl, rfl, rfl, rfl, Gate.isSome_of_ensure hgate⟩
    · exact ⟨rfl, rfl, rfl, rfl, Gate.isSome_of_ensure hgate⟩

end Job

/-- However often a job was run, it goes on as the job that it was. -/
theorem Ledger.enterAll_continues {β κ : Type} (l : Ledger β κ) (calls : List (RunCall β κ)) :
    l.job.Continues (calls.foldl Ledger.enter l).job := by
  induction calls generalizing l with
  | nil => exact .refl l.job
  | cons call calls ih =>
    have hstep : l.job.Continues (l.enter call).job := by
      have hrun := l.job.run_continues call.args call.archive call.resume call.world
      unfold enter
      dsimp only
      split
      · exact hrun
      · split
        · exact hrun
        · exact hrun
    exact hstep.trans (ih (l.enter call))

/-! ## Archived before it is pushed -/

/-- A record that a task wants, with its item as a job passes it on. -/
def Lines.Task.FindsFor (task : Lines.Task) (job : String) (line : Int) (record : Json)
    (item : Item) : Prop :=
  ∃ made, task.Finds line record made ∧ item = made.tagged job

/-- A run that starts with some files archives each record before the queue is asked to take its
    item. -/
structure Run.ArchivesFirst {β κ : Type} (run : Run β κ) (disk : Disk β) (outlet : Outlet κ)
    (job : String) (a : Archive) (task : Lines.Task) (start : FileTree)
    (turns : List (Turn β κ)) : Prop where
  turned : run.passage.Turned outlet turns
  /-- Whatever is pushed, taken or not, was archived in the same turn before. -/
  pushed : ∀ t ∈ turns, ∀ reply, t.reply = some reply →
    ∃ e, t.Archives a task (task.FindsFor job) e ∧
      reply = outlet.queue.push outlet.name e.item.bytes ⟨t.after.files, t.queue⟩
  /-- A turn that does not archive a record gives no item. -/
  failed : ∀ t ∈ turns, (∃ e, t.Archives a task (task.FindsFor job) e) ∨
    t.Fails disk a task (task.FindsFor job)
  /-- The records of the items that the queue took stand in the archive in their order. Behind
      them is no more than one whose item could not be passed on, or what was left of one that
      could not be stored. -/
  order : ∃ taken rest part, run.passage.Stored task (task.FindsFor job) 0 taken rest ∧
    run.passage.Leaves task (task.FindsFor job) part ∧ (disk = .sound → part = []) ∧
    (outlet.queue.KeepsArchive outlet.name a task.category →
      ∀ bytes, a.Holds task.category start bytes →
        a.Holds task.category run.world.env.files
          (bytes ++ (linesOfEntries (taken ++ rest) ++ part)))

/-- Passing on a stream that stores what it gives archives it first. -/
theorem Run.archivesFirst_of_stores {β κ : Type} {run : Run β κ} {disk : Disk β}
    {outlet : Outlet κ} {job : String} {a : Archive} {task : Lines.Task} {env : Env β}
    {d : Draw (Env β) (Except BackendError Item)} {c : Checkpoint} {own : κ}
    (hrun : run.passage = outlet.forwardAll d c own)
    (h : d.Stores disk task a (task.FindsFor job) (fun _ => True) 0 env) :
    run.ArchivesFirst disk outlet job a task env.files (outlet.turns env d own) := by
  have hturned := outlet.forwardAll_turned env d c own
  have heach := outlet.turns_store h own
  have hworld : run.world = (outlet.forwardAll d c own).world := by rw [← hrun]; rfl
  rw [← hrun] at hturned
  constructor
  · exact hturned
  · intro t ht reply hreply
    obtain ⟨item, hdrawn, hpush⟩ := hturned.pushed t ht reply hreply
    rcases heach t ht with ⟨e, he⟩ | hfails
    · have hitem := he.drawn
      rw [hdrawn] at hitem
      cases hitem
      exact ⟨e, he, hpush⟩
    · -- A turn that gives no item pushes none.
      rcases hfails with ⟨hnone, -⟩ | ⟨e, hnone, -⟩ | ⟨-, -, hnone⟩
      all_goals rw [hdrawn] at hnone
      all_goals cases hnone
  · exact heach
  · rw [hrun, hworld]
    exact outlet.forwardAll_stores (I := fun _ => True) h (fun _ _ _ => trivial)
      (fun _ _ _ => trivial) (fun _ _ _ => trivial) c trivial

/-- A disk on which so many lines can be written, of which its user keeps count. Of the next one
    only the first octets are written. -/
def Disk.full (lines : Nat) : Disk Nat := fun written =>
  if written < lines then (.whole, written + 1) else (.cut 7 "No space left on device", written)

/-- A job with an open archive on a disk for one line. -/
def archivingJob : Job Nat Queue.Counted :=
  ⟨"job", "task", recordCategory, Lines.backend (.full 1), Queue.refusing [], "items",
    ⟨some ⟨⟨"arch"⟩⟩⟩, .start "job" "task" recordsName recordCategory⟩

/-- A run for the two records. -/
def archivingCall (resume : Bool) : RunCall Nat Queue.Counted :=
  ⟨[(pathArgument, .string "records.jsonl")], none, resume,
    ⟨⟨twoRecordsWorld.env.files, twoRecordsWorld.env.clock, 0⟩, twoRecordsWorld.queue⟩⟩

end Harvest
