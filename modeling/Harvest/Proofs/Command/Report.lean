/-
  Harvest.Proofs.Command.Report

  What a command that runs a job prints, beside what it delivered. It prints one JSON document,
  which says whether the job ended well and what the checkpoint of the job tells
  (`told_of_execute`). The file of the queue gained the payloads that the job pushed, each on a line
  of its own, and nothing else (`gains_of_execute`). Read on their own these are objects of the job,
  as many as the document says, up to the one that it names (`run_reports_deliveries`).
-/
import Harvest.Command.Execution
import Harvest.Proofs.Job.Keeping
import Harvest.Proofs.Json.Sorted
import Harvest.Proofs.Json.Wellformed
import Harvest.Proofs.Queue.Lines

namespace Harvest

/-! ## What is printed -/

/-- What the checkpoint in a document tells of payloads. There is none only if there are no
    payloads. It has their number, as far as sixty-four bits go, the identifier in the last one,
    and that of the job which is in all of them; and each payload is an object. -/
inductive Checkpoint.Told : Json → List Bytes → Prop where
  | nothing : Told .null []
  | payloads {checkpoint : Json} {payloads : List Bytes} {job : String}
      (hcount : checkpoint.get? "nitems" =
        some (.ofNat (Number.wrap Number.greatestUnsigned64 payloads.length)))
      (hfits : payloads.length ≤ Number.greatestUnsigned64 →
        checkpoint.get? "nitems" = some (.ofNat payloads.length))
      (hlast : ∀ payload, payloads.getLast? = some payload → ∃ uuid,
        Payload.field? payload Item.uuidField = some (some (.string uuid)) ∧
          checkpoint.get? "last_uuid" = some (.string uuid))
      (hjob : checkpoint.get? "job_id" = some (.string job))
      (hpayloads : ∀ payload ∈ payloads, Payload.IsObject payload ∧
        Payload.field? payload Item.jobField = some (some (.string job))) :
      Told checkpoint payloads

theorem Checkpoint.get?_document (c : Checkpoint) (name : String) :
    c.toJson.sorted.get? name = (c.toJson.get? name).map Json.sorted := by
  refine Json.get?_sorted ?_ name
  show ["job_id", "task_id", "backend", "category", "last_uuid", "max_date", "nitems", "offset",
    "nresumed"].Nodup
  decide

/-- The identifier of an item is a string in its payload. -/
theorem Item.PassedOn.uuid_written {i : Item} {job uuid : String} (h : i.PassedOn job)
    (huuid : i.uuid? = some uuid) :
    Payload.field? i.bytes uuidField = some (some (.string uuid)) := by
  obtain ⟨v, hv, hs⟩ := Option.bind_eq_some_iff.mp huuid
  cases v with
  | string s =>
    cases hs
    exact (Item.writtenAs_bytes h.ordered).string hv
  | _ => cases hs

/-- A checkpoint that accounts for items tells of their payloads in a document. -/
theorem Checkpoint.Accounts.told {c : Checkpoint} {items : List Item} {resumes : Nat}
    (h : c.Accounts items resumes) (hitems : ∀ i ∈ items, i.PassedOn c.jobId) :
    Checkpoint.Told c.toJson.sorted (items.map Item.bytes) := by
  have hcount : c.toJson.sorted.get? "nitems" =
      some (.ofNat (Number.wrap Number.greatestUnsigned64 (items.map Item.bytes).length)) := by
    rw [get?_document, List.length_map, ← h.items]
    rfl
  have hjob : c.toJson.sorted.get? "job_id" = some (.string c.jobId) := by
    rw [get?_document]
    rfl
  refine .payloads hcount ?_ ?_ hjob ?_
  · intro hfits
    rw [hcount, Number.wrap_of_le hfits]
  · intro payload hpayload
    rw [List.getLast?_map] at hpayload
    obtain ⟨i, hi, rfl⟩ := Option.map_eq_some_iff.mp hpayload
    have hmem := List.mem_of_getLast? hi
    obtain ⟨m, hm⟩ := h.marked i hmem
    obtain ⟨huuid, -⟩ := Item.marks_eq_ok_iff.mp hm
    have hlast : c.lastUuid = some m.uuid := by rw [h.lastUuid, hi]; exact huuid
    refine ⟨m.uuid, (hitems i hmem).uuid_written huuid, ?_⟩
    rw [get?_document]
    show some (Json.ofOption Json.string c.lastUuid).sorted = _
    rw [hlast]
    rfl
  · intro payload hpayload
    obtain ⟨i, hi, rfl⟩ := List.mem_map.mp hpayload
    have hwritten := Item.writtenAs_bytes (hitems i hi).ordered
    exact ⟨hwritten.object, hwritten.string (hitems i hi).belongs⟩

namespace Command

/-- The words for the error that a job ended with. -/
def messageOf : Except Failure Checkpoint → Option String
  | .ok _ => none
  | .error f => some f.message

/-- The outcome of a job as a document. -/
def document (result : Except Failure Checkpoint) : Json :=
  (Json.object [("checkpoint", .ofOption Checkpoint.toJson (checkpointOf result)),
    ("error", .ofOption .string (messageOf result)), ("success", .bool result.isOk)]).sorted

theorem outcomeLine_eq (result : Except Failure Checkpoint) :
    outcomeLine result = (document result).text ++ "\n" := by
  cases result <;> rfl

theorem get?_document (result : Except Failure Checkpoint) (name : String) :
    (document result).get? name = (Fields.get?
      [("checkpoint", .ofOption Checkpoint.toJson (checkpointOf result)),
        ("error", .ofOption .string (messageOf result)), ("success", .bool result.isOk)]
      name).map Json.sorted := by
  refine Json.get?_sorted ?_ name
  show ["checkpoint", "error", "success"].Nodup
  decide

/-- A line that is printed for a document is a JSON text, behind which nothing else comes. -/
theorem skipValue_line (v : Json) :
    Json.skipValue (v.text ++ "\n").toList = .ok ((), ['\n']) := by
  rw [String.toList_append, Json.text, String.toList_ofList]
  exact Json.skipValue_chars v (.cons (by decide) [])

/-! ## What is delivered -/

/-- An item that lacks what a job has to know of it is an invalid item. -/
theorem invalid_of_marks {i : Item} {e : JobError} (h : i.marks = .error e) :
    ∃ words, e = .invalidItem words := by
  unfold Item.marks at h
  split at h
  · cases h
    exact ⟨_, rfl⟩
  · split at h
    · cases h
      exact ⟨_, rfl⟩
    · cases h

/-- From one tree to another the file of a path gained lines, each of them a payload, and nothing
    else. There is such a file if there are lines. -/
structure GainsLines (before after : FileTree) (path : Path) (payloads : List Bytes) : Prop where
  oneLine : ∀ payload ∈ payloads, newline ∉ payload
  located : payloads ≠ [] → ∃ place, after.locate path = .ok place
  gained : ∀ place, after.locate path = .ok place →
    after.octets place = before.octets place ++ framed payloads

/-- The files of the archive that executing a request may write to. -/
def archivePaths (request : Request) : List Path :=
  request.archive.toList.map fun a => Archive.categoryPath ⟨⟨a.path⟩⟩ request.category

theorem eq_of_builtin_find? {β : Type} {name : String} {b : Backend β}
    (h : Registry.builtin.find? name = some b) : b = Lines.backend := by
  simp only [Registry.builtin, Registry.register, Registry.empty, Registry.place,
    Registry.find?] at h
  have hmem := List.mem_of_find?_eq_some h
  simpa using hmem

/-- What executing a request adds to the file of its queue are the items that it takes, each on
    its line, if the archive has no share in that file. The job passed all of them on. -/
theorem gains_of_execute {β : Type} (request : Request) (dir : Path) (fresh : String)
    (env : Env β) :
    let e := request.execute Registry.builtin (Queue.lines dir) fresh ⟨env, ()⟩
    (∀ place, e.world.env.files.locate (Queue.linesPath dir request.queue) = .ok place →
      e.world.env.files.FreeOf (archivePaths request) place) →
    GainsLines env.files e.world.env.files (Queue.linesPath dir request.queue)
        (e.items.map Item.bytes) ∧
      ∀ i ∈ e.items, i.PassedOn (request.jobId.getD fresh) := by
  intro e hapart
  -- What is kept along the runs: the file gathered what the log of the queue tells.
  let kept : Store (Unit × List (String × Bytes)) → Prop :=
    Queue.Gathered env.files (Queue.linesPath dir request.queue) (archivePaths request)
  have hstored : Lines.StoringKeeps kept request.category
      (request.archive.map fun args => ⟨⟨args.path⟩⟩) := by
    refine Queue.Gathered.stored ?_
    intro a ha
    obtain ⟨args, hargs, rfl⟩ := Option.map_eq_some_iff.mp ha
    simp [archivePaths, hargs]
  -- A log of the pushes changes nothing, and the file gathers what it tells.
  have hlogged : request.execute Registry.builtin (Queue.lines dir).logged fresh ⟨env, (), []⟩ =
      e.logged ([] ++ e.items.map fun (i : Item) => (request.queue, i.bytes)) :=
    request.execute_logged Registry.builtin (Queue.lines dir) fresh env () []
  have hkeeps : kept (request.execute Registry.builtin (Queue.lines dir).logged fresh
        ⟨env, (), []⟩).world.store ∧
      ∀ i ∈ (request.execute Registry.builtin (Queue.lines dir).logged fresh
        ⟨env, (), []⟩).items, i.PassedOn (request.jobId.getD fresh) :=
    Request.execute_keeps (fun b hb => eq_of_builtin_find? hb)
      (fun s payload hs => Queue.Gathered.push s payload hs) hstored
      (FileTree.Gathers.refl env.files)
  rw [hlogged] at hkeeps
  obtain ⟨hgathers, hitems⟩ := hkeeps
  have hgathers : env.files.Gathers e.world.env.files (Queue.linesPath dir request.queue)
      (archivePaths request) (framed (([] ++ e.items.map fun (i : Item) =>
        (request.queue, i.bytes)).map Prod.snd)) := hgathers
  rw [List.nil_append, List.map_map] at hgathers
  refine ⟨⟨?_, ?_, ?_⟩, hitems⟩
  · intro payload hpayload
    obtain ⟨i, -, rfl⟩ := List.mem_map.mp hpayload
    exact i.newline_notMem_bytes
  · exact fun hne => hgathers.located (mt framed_eq_nil_iff.mp hne)
  · exact fun place hplace => hgathers.gathered place (hapart place hplace) hplace

/-- No queue of lines refuses an item for what it is, and no item fails to be written. -/
theorem error_of_execute {β : Type} {request : Request} {dir : Path} {fresh : String}
    {env : Env β} {f : Failure}
    (h : (request.execute Registry.builtin (Queue.lines dir) fresh ⟨env, ()⟩).result = .error f)
    (words : String) :
    f.error ≠ .queue (.invalidPayload words) ∧ f.error ≠ .serialization words := by
  have herror := Request.execute_error h
  -- An item without its marks is an invalid one, which is an error of another kind.
  cases hf : f.error with
  | queue e =>
    rw [hf] at herror
    cases herror with
    | unmarked hm =>
      obtain ⟨words, hwords⟩ := invalid_of_marks hm
      cases hwords
    | refused hp =>
      obtain ⟨words, rfl⟩ := Queue.io_of_lines_push (Item.newline_notMem_bytes _) hp
      simp
  | serialization words =>
    rw [hf] at herror
    cases herror with
    | unmarked hm =>
      obtain ⟨words, hwords⟩ := invalid_of_marks hm
      cases hwords
  | _ => simp

/-- The checkpoint that a job ends with tells of its payloads in a document. -/
theorem told_of_execute {β κ : Type} {request : Request} {registry : Registry β}
    {queue : Queue κ} {fresh : String} {world : World β κ} :
    let e := request.execute registry queue fresh world
    (∀ i ∈ e.items, i.PassedOn (request.jobId.getD fresh)) →
    Checkpoint.Told (Json.ofOption Checkpoint.toJson (checkpointOf e.result)).sorted
      (e.items.map Item.bytes) := by
  intro e hitems
  obtain ⟨resumes, haccounted⟩ := request.execute_accounted registry queue fresh world
  cases hc : checkpointOf e.result with
  | none =>
    rw [show e.items = [] from (haccounted.none hc).1]
    exact .nothing
  | some c =>
    obtain ⟨haccounts, hstart⟩ := haccounted.some c hc
    have hjob : c.jobId = request.jobId.getD fresh := congrArg Checkpoint.jobId hstart
    exact haccounts.told fun i hi => by rw [hjob]; exact hitems i hi

/-! ## A run of the program -/

/-- The error that a command fails with whose job has a result. -/
def errorOf : Except Failure Checkpoint → Option CommandError
  | .ok _ => none
  | .error f => some (.failed f)

theorem failed_of_errorOf {result : Except Failure Checkpoint} {e : CommandError}
    (h : errorOf result = some e) : ∃ f, e = .failed f ∧ result = .error f := by
  cases result with
  | ok c => cases h
  | error f =>
    cases h
    exact ⟨f, rfl, rfl⟩

/-- What a command printed, how it ended, and what it delivered to the file of a queue agree. -/
structure Outcome.Reports {β : Type} (o : Outcome β) (before : FileTree) (path : Path)
    (report : Json) (payloads : List Bytes) : Prop where
  printed : o.output = report.text ++ "\n"
  /-- The output is one JSON text on a line. -/
  document : Json.skipValue o.output.toList = .ok ((), ['\n'])
  success : report.get? "success" = some (.bool (o.code = 0))
  error : report.get? "error" = some .null ↔ o.code = 0
  told : ∃ checkpoint, report.get? "checkpoint" = some checkpoint ∧
    Checkpoint.Told checkpoint payloads
  delivered : GainsLines before o.env.files path payloads
  /-- No item is the reason for a failure because of what is in it. -/
  failed : ∀ e, o.error = some e → ∃ f, e = .failed f ∧
    ∀ words, f.error ≠ .queue (.invalidPayload words) ∧ f.error ≠ .serialization words

section

variable {β : Type} (r : Run) (request : Request) (fresh : String) (env : Env β)

/-- The command fails as the job does. -/
theorem executeRequest_error :
    (r.executeRequest request fresh env).error = errorOf
      (request.execute Registry.builtin (Queue.lines r.queueDir) fresh ⟨env, ()⟩).result := rfl

theorem executeRequest_code :
    (r.executeRequest request fresh env).code =
      if (request.execute Registry.builtin (Queue.lines r.queueDir) fresh ⟨env, ()⟩).result.isOk
        then 0 else 1 := by
  unfold Outcome.code
  rw [executeRequest_error]
  generalize (request.execute Registry.builtin (Queue.lines r.queueDir) fresh ⟨env, ()⟩).result =
    result
  cases result <;> rfl

end

/-- A command that comes to execute a request for a job reports just what it delivered, whatever
    files there are and however the job ends. The file of the queue must not be one of the archive:
    the path of the queue does not lead to a file to which the path of the archive leads, at the
    end and so at no time before. -/
theorem run_reports_deliveries {β : Type} {r : Run} {request : Request} {fresh : String}
    {env : Env β} (hrequest : r.request env.files = .ok request)
    (hapart : let o := execute fresh env (.run r)
      ∀ place, o.env.files.locate (Queue.linesPath r.queueDir request.queue) = .ok place →
        o.env.files.FreeOf (archivePaths request) place) :
    ∃ report payloads, (execute fresh env (.run r)).Reports env.files
      (Queue.linesPath r.queueDir request.queue) report payloads := by
  have hexecute : execute fresh env (.run r) = r.executeRequest request fresh env := by
    show r.execute fresh env = _
    unfold Run.execute
    rw [hrequest]
  rw [hexecute] at hapart ⊢
  let e := request.execute Registry.builtin (Queue.lines r.queueDir) fresh ⟨env, ()⟩
  obtain ⟨hdelivered, hitems⟩ := gains_of_execute request r.queueDir fresh env hapart
  have hcode := executeRequest_code r request fresh env
  refine ⟨document e.result, e.items.map Item.bytes, ?_⟩
  constructor
  case printed => exact outcomeLine_eq e.result
  case document =>
    show Json.skipValue (outcomeLine e.result).toList = _
    rw [outcomeLine_eq, skipValue_line]
  case success =>
    rw [get?_document, hcode]
    cases e.result <;> rfl
  case error =>
    rw [get?_document, hcode]
    show some (Json.ofOption Json.string (messageOf e.result)).sorted = _ ↔ _ = 0
    cases e.result with
    | ok c => exact ⟨fun _ => rfl, fun _ => rfl⟩
    | error f => exact ⟨nofun, nofun⟩
  case told => exact ⟨_, get?_document e.result "checkpoint", told_of_execute hitems⟩
  case delivered => exact hdelivered
  case failed =>
    intro error herror
    rw [executeRequest_error] at herror
    obtain ⟨f, rfl, hresult⟩ := failed_of_errorOf herror
    exact ⟨f, rfl, error_of_execute hresult⟩

/-- A command for the records of a file, which are archived. -/
def archivingRun : Run where
  base := .named "task" recordsName recordCategory
  jobId := none
  args := [(pathArgument, .string "records.jsonl")]
  archive := some (.store "arch")
  maxRetries := none
  queueDir := defaultQueueDir
  queue := none
  metrics := none

/-- The request of that command. -/
def archivingRequest : Request :=
  { Request.make "task" recordsName recordCategory with
    args := [(pathArgument, .string "records.jsonl")], archive := some (.store "arch") }

/-- Two records are archived and pushed, and the command reports both. -/
theorem reports_two_records :
    archivingRun.request twoRecordsWorld.env.files = .ok archivingRequest ∧
      let o := execute "job" twoRecordsWorld.env (.run archivingRun)
      let path := Queue.linesPath archivingRun.queueDir archivingRequest.queue
      (∀ place, o.env.files.locate path = .ok place →
        o.env.files.FreeOf (archivePaths archivingRequest) place) ∧
      ∃ report payloads, o.Reports twoRecordsWorld.env.files path report payloads := by
  have hrequest : archivingRun.request twoRecordsWorld.env.files = .ok archivingRequest := rfl
  refine ⟨hrequest, ?_⟩
  intro o path
  -- The files that the paths lead to in the end, looked up in one run.
  have hplaces : (path :: archivePaths archivingRequest).map
      (fun q => (o.env.files.locate q).toOption) =
      [some ["queues", "items.jsonl"], some ["arch", "item.jsonl"]] := by decide +kernel
  rw [List.map_cons, List.cons.injEq] at hplaces
  obtain ⟨hqueue, harchive⟩ := hplaces
  have hapart : ∀ place, o.env.files.locate path = .ok place →
      o.env.files.FreeOf (archivePaths archivingRequest) place := by
    intro place hplace q hq hlocated
    have hmem := List.mem_map_of_mem (f := fun q => (o.env.files.locate q).toOption) hq
    rw [hplace] at hqueue
    rw [harchive, hlocated] at hmem
    cases hqueue
    simp [Except.toOption] at hmem
  exact ⟨hapart, run_reports_deliveries hrequest hapart⟩

end Command

end Harvest
