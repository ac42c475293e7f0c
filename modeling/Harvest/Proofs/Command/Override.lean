/-
  Harvest.Proofs.Command.Override

  The request of a command that runs a job. A file may describe the request, and flags beside it go
  before what is in the file, field by field (`flags_override_file`). The reader of the command line
  sees to it that flags which need each other are there, and that flags which exclude each other are
  not. So putting the request together, from flags any of which could be missing
  (`RunFlags.request`), never misses one, and fails for what is in the request alone.
-/
import Harvest.Command.Execution
import Harvest.Proofs.Command.Uses
import Harvest.Proofs.Job.Documents
import Mathlib.Data.List.Forall2

namespace Harvest

/-! ## Arguments put over others -/

namespace Fields

/-- Fields that came of others when pairs were put over them, from left to right. The last pair of
    a name counts, a name without a pair keeps what it had, and no name is there twice. -/
structure Overwritten (fields : Fields) (pairs : List (String × Json)) (result : Fields) :
    Prop where
  last : ∀ front name value behind, pairs = front ++ (name, value) :: behind →
    name ∉ behind.map Prod.fst → result.get? name = some value
  kept : ∀ name, name ∉ pairs.map Prod.fst → result.get? name = fields.get? name
  ordered : result.Ordered

theorem get?_insertAll_of_notMem {pairs : List (String × Json)} {name : String}
    (h : name ∉ pairs.map Prod.fst) (fields : Fields) :
    (fields.insertAll pairs).get? name = fields.get? name := by
  induction pairs generalizing fields with
  | nil => rfl
  | cons pair pairs ih =>
    rw [List.map_cons, List.mem_cons, not_or] at h
    show (insertAll (fields.insert pair.1 pair.2) pairs).get? name = _
    rw [ih h.2, get?_insert_of_ne fields h.1]

/-- Setting several fields puts them over those that are there. -/
theorem overwritten_insertAll {fields : Fields} (h : fields.Ordered)
    (pairs : List (String × Json)) : fields.Overwritten pairs (fields.insertAll pairs) where
  last := by
    rintro front name value behind rfl hbehind
    -- The pairs in front are put in first, and those behind are none of the name.
    have hsplit : fields.insertAll (front ++ (name, value) :: behind) =
        ((fields.insertAll front).insert name value).insertAll behind := List.foldl_append
    rw [hsplit, get?_insertAll_of_notMem hbehind, get?_insert_self]
  kept := fun _ hname => get?_insertAll_of_notMem hname fields
  ordered := h.insertAll pairs

end Fields

namespace Command

/-! ## Values that are read -/

/-- Texts that are read one by one are each read as one of the values. -/
theorem forall₂_of_mapM_ok {ε α : Type} {read : String → Except ε α} {texts : List String}
    {values : List α} (h : texts.mapM read = .ok values) :
    List.Forall₂ (fun text value => read text = .ok value) texts values := by
  induction texts generalizing values with
  | nil =>
    cases h
    exact .nil
  | cons text texts ih =>
    rw [List.mapM_cons] at h
    obtain ⟨value, hvalue, h⟩ := of_bind_eq_ok h
    obtain ⟨others, hothers, h⟩ := of_bind_eq_ok h
    cases h
    exact .cons hvalue (ih hothers)

/-- A text that is read as a path is the text of the path. -/
theorem eq_of_readPath {text : String} {path : Path} (h : readPath text = .ok path) :
    path = ⟨text⟩ := by
  unfold readPath at h
  split at h
  · cases h
  · cases h
    rfl

/-- A text names an argument: in front of its first equals sign is a name, which is not empty, and
    what is behind stands for the value. -/
structure NamesArgument (text : String) (argument : String × Json) : Prop where
  named : argument.1 ≠ ""
  first : '=' ∉ argument.1.toList
  value : ∃ behind, text.toList = argument.1.toList ++ '=' :: behind ∧
    argument.2 = argumentValue behind

theorem readArgument_eq_ok_iff {text : String} {argument : String × Json} :
    readArgument text = .ok argument ↔ NamesArgument text argument := by
  constructor
  · intro h
    unfold readArgument at h
    split at h
    · cases h
    · cases h
    · next name behind hname hsplit =>
      cases h
      obtain ⟨hfirst, htext⟩ := splitEquals_eq_some_iff.mp hsplit
      refine ⟨fun hempty => hname ?_, ?_, behind, ?_, rfl⟩
      · simpa using congrArg String.toList hempty
      · rwa [String.toList_ofList]
      · rwa [String.toList_ofList]
  · rintro ⟨hnamed, hfirst, behind, htext, hvalue⟩
    have hsplit := splitEquals_eq_some_iff.mpr ⟨hfirst, htext⟩
    have hempty : argument.1.toList ≠ [] := by simpa using hnamed
    have hsame : (String.ofList argument.1.toList, argumentValue behind) = argument := by
      rw [String.ofList_toList, ← hvalue]
    unfold readArgument
    rw [hsplit]
    split
    · next hnone => cases hnone
    · next hnil =>
      rw [Option.some.injEq, Prod.mk.injEq] at hnil
      exact absurd hnil.1 hempty
    · next name value _ hsome =>
      cases hsome
      rw [hsame]

/-! ## The flags as they are given -/

/-- The flags that are about the request of a job are what the texts of their values are read as.
    Only arguments are given more than once. -/
structure RunFlags.Reads (f : RunFlags) (uses : List Use) : Prop where
  jobFile : (textsOf "job-file" uses).mapM readPath = .ok f.jobFile.toList
  backend : textsOf "backend" uses = f.backend.toList
  category : textsOf "category" uses = f.category.toList
  taskId : textsOf "task-id" uses = f.taskId.toList
  jobId : textsOf "job-id" uses = f.jobId.toList
  args : List.Forall₂ NamesArgument (textsOf "arg" uses) f.args
  archivePath : textsOf "archive-path" uses = f.archivePath.toList
  replays : f.replays = true ↔ "fetch-from-archive" ∈ uses.map Prod.fst
  after : (textsOf "archived-after" uses).mapM readDate = .ok f.after.toList
  maxRetries : (textsOf "max-retries" uses).mapM readRetries = .ok f.maxRetries.toList
  queue : textsOf "queue" uses = f.queue.toList

namespace RunFlags

section

variable {α β : Type} {name : String} {read : String → Except Usage α}
  {set : α → RunFlags → RunFlags}

/-- A flag whose value is a text reads the text as itself. -/
@[simp] theorem textFlag_eq (name : String) (set : String → RunFlags → RunFlags) :
    textFlag name set = readFlag name .ok set := rfl

@[simp] theorem name_readFlag : (readFlag name read set).name = name := rfl

@[simp] theorem name_argumentFlag : argumentFlag.name = "arg" := rfl

@[simp] theorem keeps_readFlag {get : RunFlags → β} (h : ∀ a f, get (set a f) = get f) :
    (readFlag name read set).Keeps get := by
  intro text f f' hset
  obtain ⟨a, -, rfl⟩ := of_map_eq_ok hset
  exact h a f

@[simp] theorem collects_readFlag {get : RunFlags → Option α}
    (h : ∀ a f, get (set a f) = some a) :
    (readFlag name read set).Collects read fun f => (get f).toList := by
  intro text f f' hset hempty
  obtain ⟨a, ha, rfl⟩ := of_map_eq_ok hset
  have hnone : (get f).toList = [] := hempty rfl
  refine ⟨a, ha, ?_⟩
  dsimp only
  rw [h a f, hnone]
  rfl

/-- An argument is added behind the earlier ones. -/
theorem argumentFlag_eq_ok {text : String} {f f' : RunFlags}
    (h : (match readArgument text with
      | .ok entry => .ok { f with args := f.args ++ [entry] }
      | .error fault => .error (Usage.unreadable fault.message)) = Except.ok f') :
    ∃ entry, readArgument text = .ok entry ∧ f' = { f with args := f.args ++ [entry] } := by
  cases hentry : readArgument text with
  | error fault =>
    rw [hentry] at h
    cases h
  | ok entry =>
    rw [hentry] at h
    cases h
    exact ⟨entry, rfl, rfl⟩

@[simp] theorem keeps_argumentFlag {get : RunFlags → β}
    (h : ∀ args f, get { f with args } = get f) : argumentFlag.Keeps get := by
  intro text f f' hset
  obtain ⟨entry, -, rfl⟩ := argumentFlag_eq_ok hset
  exact h _ f

@[simp] theorem collects_argumentFlag : argumentFlag.Collects readArgument RunFlags.args := by
  intro text f f' hset _
  obtain ⟨entry, hentry, rfl⟩ := argumentFlag_eq_ok hset
  exact ⟨entry, hentry, rfl⟩

/-- A field whose texts are read as themselves holds the text that is given for it. -/
theorem text_of_told {uses : List Use} {f : RunFlags} (h : Told all none uses f)
    (get : RunFlags → Option String) (hstart : get none = .none)
    (hown : ∀ flag ∈ all, flag.name = name →
      flag.Collects (.ok : String → Except Usage String) fun f => (get f).toList)
    (hother : ∀ flag ∈ all, flag.name ≠ name → flag.Keeps fun f => (get f).toList) :
    textsOf name uses = (get f).toList := by
  have htexts := h.texts (fun f => (get f).toList) (by rw [hstart]; rfl) hown hother
  have hpure : (textsOf name uses).mapM (.ok : String → Except Usage String) =
      .ok ((textsOf name uses).map id) := List.mapM_pure (m := Except Usage) (f := id)
  rw [htexts, List.map_id] at hpure
  exact (Except.ok.inj hpure).symm

/-- The flags are what is read from the uses that tell them. -/
theorem reads_of_told {uses : List Use} {f : RunFlags} (h : Told all none uses f) :
    f.Reads uses := by
  -- Of all the flags, only the one of its name is about a field.
  constructor
  case jobFile => exact h.texts (fun f => f.jobFile.toList) rfl (by simp [all]) (by simp [all])
  case backend => exact text_of_told h backend rfl (by simp [all]) (by simp [all])
  case category => exact text_of_told h category rfl (by simp [all]) (by simp [all])
  case taskId => exact text_of_told h taskId rfl (by simp [all]) (by simp [all])
  case jobId => exact text_of_told h jobId rfl (by simp [all]) (by simp [all])
  case args =>
    have hread : (textsOf "arg" uses).mapM readArgument = .ok f.args :=
      h.texts RunFlags.args rfl (by simp [all]) (by simp [all])
    exact (forall₂_of_mapM_ok hread).imp fun _ _ => readArgument_eq_ok_iff.mp
  case archivePath => exact text_of_told h archivePath rfl (by simp [all]) (by simp [all])
  case replays => exact h.marked RunFlags.replays rfl (by simp [all]) (by simp [all])
  case after => exact h.texts (fun f => f.after.toList) rfl (by simp [all]) (by simp [all])
  case maxRetries =>
    exact h.texts (fun f => f.maxRetries.toList) rfl (by simp [all]) (by simp [all])
  case queue => exact text_of_told h queue rfl (by simp [all]) (by simp [all])

end

example : usesIn all ["--queue", "out", "--fetch-from-archive", "--arg=a=b", "--"] =
    [("queue", some "out"), ("fetch-from-archive", .none), ("arg", some "a=b")] := by
  decide +kernel

/-! ## Flags that go together -/

/-- Flags that are accepted: a file and the flags that it stands for exclude each other, a replay
    has an archive, and an instant has a replay. -/
structure Accepted (f : RunFlags) (base : Base) : Prop where
  base : f.base = .ok base
  alone : f.jobFile.isSome = true → f.describesJob = false
  replays : f.archivePath = .none → f.replays = false
  after : f.replays = false → f.after = .none

theorem command_eq_ok {f : RunFlags} {r : Run} (h : f.command = .ok r) :
    f.Accepted r.base ∧
      r = ⟨r.base, f.jobId, f.args, f.archive, f.maxRetries, f.queueDir, f.queue, f.metrics⟩ := by
  unfold command at h
  obtain ⟨hconflict, h⟩ := of_check_eq_ok h
  obtain ⟨base, hbase, h⟩ := of_bind_eq_ok h
  obtain ⟨hlacks, h⟩ := of_check_eq_ok h
  cases h
  refine ⟨⟨hbase, ?_, ?_, ?_⟩, rfl⟩
  · intro hfile
    simpa [hfile] using hconflict
  · intro hpath
    simp only [lacksOther, Bool.or_eq_true, not_or] at hlacks
    simpa [hpath] using hlacks.1
  · intro hreplays
    simp only [lacksOther, Bool.or_eq_true, not_or] at hlacks
    simpa [hreplays] using hlacks.2

/-- A file describes the request to begin with alone, and otherwise there is a flag for each thing
    that is needed. -/
theorem Accepted.cases {f : RunFlags} {base : Base} (h : f.Accepted base) :
    (∃ path, f.jobFile = some path ∧ base = .file path ∧
        f.taskId = .none ∧ f.backend = .none ∧ f.category = .none) ∨
      ∃ task backend category, f.jobFile = .none ∧ base = .named task backend category ∧
        f.taskId = some task ∧ f.backend = some backend ∧ f.category = some category := by
  have hbase := h.base
  unfold RunFlags.base at hbase
  split at hbase
  · next path hpath =>
    cases hbase
    have halone := h.alone (by rw [hpath]; rfl)
    simp only [describesJob, Bool.or_eq_false_iff, Option.isSome_eq_false_iff,
      Option.isNone_iff_eq_none] at halone
    exact .inl ⟨path, hpath, rfl, halone.2, halone.1.1, halone.1.2⟩
  · next task backend category hpath htask hbackend hcategory =>
    cases hbase
    exact .inr ⟨task, backend, category, hpath, rfl, htask, hbackend, hcategory⟩
  · cases hbase

end RunFlags

/-! ## Putting the request together -/

/-- The value of a flag that a request needs. -/
def RunFlags.demand (name : String) : Option String → Except CommandError String
  | some text => .ok text
  | .none => .error (.invalid ("--" ++ name ++ " is required"))

/-- The request to begin with: the one that a file describes, or else one that flags name, any of
    which may be missing. -/
def RunFlags.begun (f : RunFlags) (files : FileTree) : Except CommandError Request :=
  match f.jobFile with
  | some path => readRequest files path
  | .none => do
    let task ← demand "task-id" f.taskId
    let backend ← demand "backend" f.backend
    let category ← demand "category" f.category
    return .make task backend category

/-- The request with what the flags tell besides. -/
def RunFlags.over (f : RunFlags) (request : Request) : Request :=
  { request with
    jobId := f.jobId.or request.jobId
    args := request.args.insertAll f.args
    archive :=
      match f.archivePath with
      | some path => some (if f.replays then .replay path f.after else .store path)
      | .none => request.archive
    maxRetries := f.maxRetries.getD request.maxRetries
    queue := f.queue.getD request.queue }

/-- The request that flags describe, put together from any flags. -/
def RunFlags.request (f : RunFlags) (files : FileTree) : Except CommandError Request := do
  let begun ← f.begun files
  let request := f.over begun
  request.validate.mapError fun fault => .invalid fault.message
  return request

/-- The request of a command is the one that is put together from the flags it was made of. -/
theorem RunFlags.request_of_command {f : RunFlags} {r : Run} (h : f.command = .ok r)
    (files : FileTree) : r.request files = f.request files := by
  obtain ⟨haccepted, hr⟩ := command_eq_ok h
  -- The base of the command was made of the flags that are asked for here, which are all there.
  have hbase : r.base.request files = f.begun files := by
    rcases haccepted.cases with ⟨path, hpath, hbase, -⟩ |
      ⟨task, backend, category, hpath, hbase, htask, hbackend, hcategory⟩
    · rw [hbase, begun, hpath]
      rfl
    · rw [hbase, begun, hpath, htask, hbackend, hcategory]
      rfl
  have hover : r.override = f.over := by
    funext request
    rw [hr, Run.override, RunFlags.over]
    cases harchive : f.archivePath <;> simp [RunFlags.archive, harchive]
  rw [Run.request, RunFlags.request, hbase, hover]

/-- A request that was put together, behind the checks: it is refused for the first of its task, its
    category and its queue that is empty, and otherwise it is the outcome. -/
inductive Checked (request : Request) : Except CommandError Request → Prop where
  | passed (htask : request.taskId ≠ "") (hcategory : request.category ≠ "")
      (hqueue : request.queue ≠ "") : Checked request (.ok request)
  | task (htask : request.taskId = "") :
      Checked request (.error (.invalid "Task id cannot be empty"))
  | category (htask : request.taskId ≠ "") (hcategory : request.category = "") :
      Checked request (.error (.invalid "Category cannot be empty"))
  | queue (htask : request.taskId ≠ "") (hcategory : request.category ≠ "")
      (hqueue : request.queue = "") :
      Checked request (.error (.invalid "Queue cannot be empty"))

theorem checked_validate (request : Request) :
    Checked request (do
      request.validate.mapError fun fault => .invalid fault.message
      return request) := by
  unfold Request.validate
  split
  · next htask => exact .task htask
  · next htask =>
    split
    · next hcategory => exact .category htask hcategory
    · next hcategory =>
      split
      · next hqueue => exact .queue htask hcategory hqueue
      · next hqueue => exact .passed htask hcategory hqueue

theorem RunFlags.checked_request {f : RunFlags} {files : FileTree} {begun : Request}
    (h : f.begun files = .ok begun) : Checked (f.over begun) (f.request files) := by
  rw [RunFlags.request, bind_of_ok h]
  exact checked_validate (f.over begun)

/-! ## Flags and a file -/

/-- The file of a path describes a request: it can be read, and it holds a text of the request. -/
def Describes (files : FileTree) (path : Path) (request : Request) : Prop :=
  ∃ text, files.readText path = .ok text ∧ Request.shape.ofChars text = .ok request

theorem readRequest_of_describes {files : FileTree} {path : Path} {request : Request}
    (h : Describes files path request) : readRequest files path = .ok request := by
  obtain ⟨text, htext, hrequest⟩ := h
  simp only [readRequest, htext, hrequest]

/-- The uses of flags in a command line for running a job, behind the name of the command. -/
def usesOf (line : List String) : List Use := usesIn RunFlags.all line.tail

/-- The file that uses of flags name for a request. -/
def fileIn (uses : List Use) : Option Path := (textsOf "job-file" uses).head?.map Path.mk

theorem RunFlags.Reads.fileIn {f : RunFlags} {uses : List Use} (h : f.Reads uses) :
    fileIn uses = f.jobFile := by
  have hread := forall₂_of_mapM_ok h.jobFile
  unfold Command.fileIn
  cases hfile : f.jobFile with
  | none =>
    rw [hfile] at hread
    rw [List.forall₂_nil_right_iff.mp hread]
    rfl
  | some path =>
    rw [hfile] at hread
    obtain ⟨text, texts, hpath, -, htexts⟩ := List.forall₂_cons_right_iff.mp hread
    rw [htexts, eq_of_readPath hpath]
    rfl

/-- What a request has in its fields, by the flags of a command and the request that a file
    describes, if there is one. -/
structure RunFlags.Overrides (f : RunFlags) (described : Option Request) (request : Request) :
    Prop where
  /-- Beside a file no flag names a task, a backend or a category. -/
  fromFile : ∀ d, described = some d →
    (f.taskId = .none ∧ f.backend = .none ∧ f.category = .none) ∧
      request.taskId = d.taskId ∧ request.backend = d.backend ∧ request.category = d.category
  fromFlags : described = .none → f.taskId = some request.taskId ∧
    f.backend = some request.backend ∧ f.category = some request.category
  jobId : request.jobId = f.jobId.or (described.bind Request.jobId)
  maxRetries : request.maxRetries =
    (f.maxRetries.or (described.map Request.maxRetries)).getD defaultMaxRetries
  queue : request.queue = (f.queue.or (described.map Request.queue)).getD defaultQueue
  args : Fields.Overwritten ((described.map Request.args).getD []) f.args request.args
  /-- Without a path, no flag is about the archive. -/
  archiveKept : f.archivePath = .none →
    (f.replays = false ∧ f.after = .none) ∧ request.archive = described.bind Request.archive
  archiveGiven : ∀ path, f.archivePath = some path →
    request.archive = some ⟨path, f.replays, f.after⟩

/-- A request to begin with: fields that no flag is needed for have what a file tells, or else what
    stands for them if nothing is told. -/
structure Begins (described : Option Request) (begun : Request) : Prop where
  jobId : begun.jobId = described.bind Request.jobId
  maxRetries : begun.maxRetries = (described.map Request.maxRetries).getD defaultMaxRetries
  queue : begun.queue = (described.map Request.queue).getD defaultQueue
  archive : begun.archive = described.bind Request.archive
  args : begun.args = (described.map Request.args).getD []
  ordered : begun.args.Ordered

theorem getD_getD_eq {α : Type} (a b : Option α) (c : α) : a.getD (b.getD c) = (a.or b).getD c := by
  cases a <;> rfl

/-- What flags put over a request to begin with overrides it. -/
theorem RunFlags.Overrides.over {f : RunFlags} {base : Base} {described : Option Request}
    {begun : Request} (haccepted : f.Accepted base) (hbegins : Begins described begun)
    (hfile : ∀ d, described = some d →
      (f.taskId = .none ∧ f.backend = .none ∧ f.category = .none) ∧ begun = d)
    (hflags : described = .none → f.taskId = some begun.taskId ∧
      f.backend = some begun.backend ∧ f.category = some begun.category) :
    f.Overrides described (f.over begun) := by
  constructor
  case fromFile =>
    intro d hd
    obtain ⟨hnone, rfl⟩ := hfile d hd
    exact ⟨hnone, rfl, rfl, rfl⟩
  case fromFlags => exact hflags
  case jobId => exact congrArg f.jobId.or hbegins.jobId
  case maxRetries =>
    rw [← getD_getD_eq, ← hbegins.maxRetries]
    rfl
  case queue =>
    rw [← getD_getD_eq, ← hbegins.queue]
    rfl
  case args =>
    rw [← hbegins.args]
    exact Fields.overwritten_insertAll hbegins.ordered f.args
  case archiveKept =>
    intro hpath
    have hreplays := haccepted.replays hpath
    refine ⟨⟨hreplays, haccepted.after hreplays⟩, ?_⟩
    rw [← hbegins.archive]
    simp only [RunFlags.over, hpath]
  case archiveGiven =>
    intro path hpath
    cases hreplays : f.replays with
    | true => simp only [RunFlags.over, hpath, hreplays, if_true, ArchiveArgs.replay]
    | false =>
      -- Without a replay no instant is given either.
      have hafter := haccepted.after hreplays
      simp [RunFlags.over, hpath, hreplays, hafter, ArchiveArgs.store]

/-- Flags that are accepted, with a file that describes a request if they name one, give a request
    to begin with, and override it. -/
theorem RunFlags.overrides_begun {f : RunFlags} {base : Base} {files : FileTree}
    {described : Option Request} (haccepted : f.Accepted base)
    (hfile : Option.Rel (Describes files) f.jobFile described) :
    ∃ begun, f.begun files = .ok begun ∧ f.Overrides described (f.over begun) := by
  rcases haccepted.cases with ⟨path, hpath, -, hnone⟩ |
    ⟨task, backend, category, hpath, -, htask, hbackend, hcategory⟩
  · rw [hpath] at hfile
    cases hfile with
    | @some _ d hd =>
      have hbegun : f.begun files = .ok d := by
        rw [begun, hpath]
        exact readRequest_of_describes hd
      -- Arguments that were read from a text are in order, so setting one keeps the others.
      have hordered : d.args.Ordered := by
        obtain ⟨text, -, hrequest⟩ := hd
        exact Request.ordered_args hrequest
      refine ⟨d, hbegun, .over haccepted ⟨rfl, rfl, rfl, rfl, rfl, hordered⟩ ?_ nofun⟩
      rintro _ ⟨⟩
      exact ⟨hnone, rfl⟩
  · rw [hpath] at hfile
    cases hfile with
    | none =>
      have hbegun : f.begun files = .ok (.make task backend category) := by
        rw [begun, hpath, htask, hbackend, hcategory]
        rfl
      refine ⟨_, hbegun, .over haccepted ⟨rfl, rfl, rfl, rfl, rfl, .nil⟩ nofun ?_⟩
      exact fun _ => ⟨htask, hbackend, hcategory⟩

/-! ## The command line -/

/-- Arguments are read as a command that runs a job only behind the name of the command. -/
theorem readName_eq_run {token : Token} {args : List String} {r : Run}
    (h : readName args token = .ok (.run r)) :
    token = .plain "run" ∧ Run.ofArguments args = .ok r := by
  unfold readName at h
  split at h
  · obtain ⟨r', hr, h⟩ := of_map_eq_ok h
    cases h
    exact ⟨rfl, hr⟩
  · obtain ⟨format, -, h⟩ := of_map_eq_ok h
    cases h
  -- Every other argument is refused where a command has to be.
  all_goals (repeat' split at h) <;> cases h

theorem command_of_line {line : List String} {r : Run} (h : ofArguments line = .ok (.run r)) :
    ∃ f, readFlags RunFlags.all RunFlags.none line.tail = .ok f ∧ f.command = .ok r := by
  cases line with
  | nil => cases h
  | cons name args => exact of_bind_eq_ok (readName_eq_run h).2

/-- Whatever command line for running a job is accepted, and whatever request the file describes
    that it names, if it names one: the request of the command has in each field what the flags of
    the line tell, or else what the file tells, or else the default. Putting it together from the
    flags never misses one. It fails only because the task, the category or the queue of the request
    is empty. -/
theorem flags_override_file {line : List String} {r : Run} {files : FileTree}
    {described : Option Request} (hline : ofArguments line = .ok (.run r))
    (hfile : Option.Rel (Describes files) (fileIn (usesOf line)) described) :
    ∃ f : RunFlags, f.Reads (usesOf line) ∧ r.request files = f.request files ∧
      ∃ request, f.Overrides described request ∧ Checked request (r.request files) := by
  obtain ⟨f, hflags, hcommand⟩ := command_of_line hline
  have hreads : f.Reads (usesOf line) := RunFlags.reads_of_told (told_of_readFlags hflags)
  rw [hreads.fileIn] at hfile
  obtain ⟨haccepted, -⟩ := RunFlags.command_eq_ok hcommand
  obtain ⟨begun, hbegun, hoverrides⟩ := RunFlags.overrides_begun haccepted hfile
  have hrequest := RunFlags.request_of_command hcommand files
  refine ⟨f, hreads, hrequest, f.over begun, hoverrides, ?_⟩
  rw [hrequest]
  exact RunFlags.checked_request hbegun

/-- A request for a job that replays an archive. -/
def jobRequest : Request :=
  { Request.make "task" "jsonl" "item" with
    args := [("offset", .ofNat 1), ("path", .string "a")]
    archive := some (.replay "arch" none) }

/-- The files with a file for a job, which holds a text. -/
def filesOf (text : List Char) : FileTree := ⟨[(["job.json"], .file (Utf8.encode text))], []⟩

/-- A file that holds the text of a request describes it. -/
theorem describes_toJson {request : Request} (h : request.FitsDocument) :
    Describes (filesOf request.toJson.chars) ⟨"job.json"⟩ request := by
  refine ⟨request.toJson.chars, ?_, ?_⟩
  · have hplace : (filesOf request.toJson.chars).locate ⟨"job.json"⟩ = .ok ["job.json"] := rfl
    have hcontent : (filesOf request.toJson.chars).content ["job.json"] =
        .ok (Utf8.encode request.toJson.chars) := rfl
    rw [FileTree.readText, bind_of_ok hplace, bind_of_ok hcontent, Utf8.decode_encode]
    rfl
  · have hread := (Request.reads_toJson h).ofChars .nil rfl
    rwa [List.append_nil] at hread

theorem jobRequest_fitsDocument : jobRequest.FitsDocument := by
  have hargs : (Json.object jobRequest.args).Parsed := by
    apply Json.Parsed.object
    · refine List.pairwise_pair.mpr ?_
      show "offset" < "path"
      decide
    · intro e he
      simp only [jobRequest, List.mem_cons, List.not_mem_nil, or_false] at he
      rcases he with rfl | rfl
      · apply Json.Parsed.number
        rintro _ ⟨⟩
        exact ⟨by decide, by decide⟩
      · exact .string "a"
  have hreal : ∀ x, ¬ Json.Within (.number (.real x)) (.object jobRequest.args) := by
    intro x hx
    cases hx with
    | field hv hx =>
      simp only [jobRequest, List.mem_cons, List.not_mem_nil, or_false, Prod.mk.injEq] at hv
      rcases hv with ⟨-, rfl⟩ | ⟨-, rfl⟩ <;> cases hx
  refine ⟨hargs, fun x hx => absurd hx (hreal x), by decide, ?_, by decide⟩
  rintro _ ⟨⟩ _ ⟨⟩

/-- A line that names the file, another archive, and an argument twice. -/
def overridingLine : List String :=
  ["run", "--job-file", "job.json", "--arg", "offset=3", "--job-id=job", "--arg=offset=x=y",
    "--archive-path", "store", "--max-retries=2"]

/-- The flags of the line. -/
def overridingFlags : RunFlags :=
  { RunFlags.none with
    jobFile := some ⟨"job.json"⟩
    jobId := some "job"
    args := [("offset", .ofNat 3), ("offset", .string "x=y")]
    archivePath := some "store"
    maxRetries := some 2 }

/-- The command of the line. -/
def overridingRun : Run where
  base := .file ⟨"job.json"⟩
  jobId := some "job"
  args := [("offset", .ofNat 3), ("offset", .string "x=y")]
  archive := some (.store "store")
  maxRetries := some 2
  queueDir := defaultQueueDir
  queue := none
  metrics := none

theorem overridingLine_read :
    readFlags RunFlags.all RunFlags.none overridingLine.tail = .ok overridingFlags := by
  have htokens : overridingLine.tail.map Token.ofArgument =
      [.long "job-file" none, .plain "job.json", .long "arg" none, .plain "offset=3",
        .long "job-id" (some "job"), .long "arg" (some "offset=x=y"), .long "archive-path" none,
        .plain "store", .long "max-retries" (some "2")] := by decide +kernel
  simp only [overridingLine, List.tail_cons, List.map_cons, List.cons.injEq] at htokens
  have hpath : readPath "job.json" = .ok ⟨"job.json"⟩ := rfl
  have hnumber : readArgument "offset=3" = .ok ("offset", .ofNat 3) :=
    readArgument_eq_ok_iff.mpr ⟨by decide, by decide, ['3'], rfl, rfl⟩
  have htext : readArgument "offset=x=y" = .ok ("offset", .string "x=y") :=
    readArgument_eq_ok_iff.mpr ⟨by decide, by decide, ['x', '=', 'y'], rfl, rfl⟩
  have hretries : readRetries "2" = .ok 2 := by decide +kernel
  -- Each argument is taken up by what it is, and each value by what it is read as.
  simp [overridingLine, readFlags, Progress.read, htokens, Progress.start, Progress.step,
    Progress.give, Progress.fill, Progress.settle, Progress.take, Progress.note, RunFlags.all,
    RunFlags.argumentFlag, RunFlags.readFlag, hpath, hnumber, htext, hretries, Bind.bind,
    Except.bind, Except.map, pure, Except.pure, RunFlags.none, overridingFlags]

theorem overridingLine_accepted : ofArguments overridingLine = .ok (.run overridingRun) := by
  have hname : Token.ofArgument "run" = .plain "run" := by decide +kernel
  have hcommand : overridingFlags.command = .ok overridingRun := rfl
  have hrun : Run.ofArguments overridingLine.tail = .ok overridingRun := by
    rw [Run.ofArguments, bind_of_ok overridingLine_read, hcommand]
  rw [overridingLine, ofArguments, hname, readName]
  exact congrArg (Except.map Command.run) hrun

/-- A line overrides what a file tells: the archive as a whole, and of two arguments of one name
    the later one counts. -/
theorem line_overrides_jobRequest :
    ofArguments overridingLine = .ok (.run overridingRun) ∧
      Option.Rel (Describes (filesOf jobRequest.toJson.chars)) (fileIn (usesOf overridingLine))
        (some jobRequest) ∧
      ∃ f : RunFlags, f.Reads (usesOf overridingLine) ∧
        overridingRun.request (filesOf jobRequest.toJson.chars) =
          f.request (filesOf jobRequest.toJson.chars) ∧
        ∃ request, f.Overrides (some jobRequest) request ∧
          Checked request (overridingRun.request (filesOf jobRequest.toJson.chars)) := by
  have hnamed : fileIn (usesOf overridingLine) = some ⟨"job.json"⟩ := by decide +kernel
  have hfile : Option.Rel (Describes (filesOf jobRequest.toJson.chars))
      (fileIn (usesOf overridingLine)) (some jobRequest) := by
    rw [hnamed]
    exact .some (describes_toJson jobRequest_fitsDocument)
  exact ⟨overridingLine_accepted, hfile, flags_override_file overridingLine_accepted hfile⟩

end Command

end Harvest
