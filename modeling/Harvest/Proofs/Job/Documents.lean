/-
  Harvest.Proofs.Job.Documents

  Requests and checkpoints survive the documents that they are kept in. The document of a request
  or of a checkpoint is read back as what it was made from, in every field
  (`documents_read_back`): what is missing stays missing, what is there is not replaced by what
  would stand for it if it was not, and numbers of any size that the fields can have are kept. What
  is asked for is only that the values are such as the fields can have, that the arguments of the
  backend nest no deeper than a document can, and that floating-point numbers are read back from
  their texts. Among the values are all instants whose nanoseconds go beyond a second only in the
  last one of a minute, as in a leap second; another one is read back as an instant of the next
  second (`beyond_second_not_read_back`). A request that was read from any text has such values
  (`Request.gives_fitting`), so that its own text gives it again (`Request.ofText_text`).
-/
import Harvest.Job.Checkpoint
import Harvest.Job.Request
import Harvest.Proofs.Json.Documents
import Harvest.Proofs.Json.Given

namespace Harvest

open Json

/-! ## Requests -/

/-- A request whose fields have values that a document can hold. The arguments of the backend are
    such as reading a text gives them, and stand one level down in the document. -/
structure Request.FitsDocument (r : Request) : Prop where
  args : (Json.object r.args).Parsed
  real : ∀ x, Json.Within (.number (.real x)) (.object r.args) → (Number.real x).ReadsBack
  depth : (Json.object r.args).depth < nestingLimit
  after : ∀ archive, r.archive = some archive → ∀ t, archive.after = some t → t.Shows
  maxRetries : r.maxRetries ≤ Number.greatestUnsigned32

/-- The archive of a job is read back from where it stands in a document. -/
theorem ArchiveArgs.reads_toJson {a : ArchiveArgs} (h : ∀ t, a.after = some t → t.Shows)
    (levels : Nat) : ArchiveArgs.shape.Reads (levels + 1) a.toJson a := by
  have hafter : Shape.date.nullable.Reads levels
      (.ofOption (fun t => .string t.text) a.after) a.after := by
    apply Shape.reads_nullable
    intro t ht
    exact ⟨Shape.reads_date (h t ht), Shape.present_string t.text⟩
  have hwritten : layout.Written levels
      [("archive_path", .string a.path), ("fetch_from_archive", .bool a.replays),
        ("archived_after", .ofOption (fun t => .string t.text) a.after)]
      (a.path, a.replays, a.after, ()) :=
    .field (Shape.reads_text a.path) (.field (Shape.reads_flag a.replays) (.field hafter .done))
  have hnames : layout.names.Nodup := by decide
  exact (Shape.reads_record hnames hwritten "ArchiveArgs").map _

namespace Request

theorem reads_scheduler {n : Nat} (h : n ≤ Number.greatestUnsigned32) (levels : Nat) :
    schedulerShape.Reads (levels + 1) (.object [("max_retries", .ofNat n)]) n := by
  have hwritten : schedulerLayout.Written levels [("max_retries", .ofNat n)] (n, ()) :=
    .field (Shape.reads_unsigned32 h) .done
  have hnames : schedulerLayout.names.Nodup := by decide
  exact (Shape.reads_record hnames hwritten "SchedulerArgs").map _

theorem reads_toJson {r : Request} (h : r.FitsDocument) : shape.Reads nestingLimit r.toJson r := by
  have hjobId : Shape.text.nullable.Reads 126 (.ofOption .string r.jobId) r.jobId := by
    apply Shape.reads_nullable
    intro s _
    exact ⟨Shape.reads_text s, Shape.present_string s⟩
  have hargs : Shape.fields.Reads 126 (.object r.args) r.args :=
    Shape.reads_fields (Nat.le_of_lt_succ h.depth) (h.args.readsBack h.real)
  have harchive : ArchiveArgs.shape.nullable.Reads 126
      (.ofOption ArchiveArgs.toJson r.archive) r.archive := by
    apply Shape.reads_nullable
    intro a ha
    exact ⟨ArchiveArgs.reads_toJson (h.after a ha) 125, Shape.present_object _⟩
  have hscheduler := reads_scheduler h.maxRetries 125
  have hnames : layout.names.Nodup := by decide
  have hrecord : (Shape.record "JobRequest" layout).Reads nestingLimit r.toJson
      (r.jobId, r.taskId, r.backend, r.category, r.args, r.archive, r.maxRetries, r.queue, ()) := by
    refine Shape.reads_record hnames ?_ "JobRequest"
    refine .field hjobId (.field (Shape.reads_text r.taskId) ?_)
    refine .field (Shape.reads_text r.backend) (.field (Shape.reads_text r.category) ?_)
    refine .field hargs (.field harchive (.field hscheduler ?_))
    exact .field (Shape.reads_text r.queue) .done
  exact hrecord.map _

end Request

/-! ## Requests that are read -/

theorem ArchiveArgs.gives_shown (levels : Nat) :
    ArchiveArgs.shape.Gives (levels + 1) fun a => ∀ t, a.after = some t → t.Shows := by
  have hlayout : layout.Gives levels _ _ :=
    .field Shape.gives_true trivial
      (.field Shape.gives_true trivial (.field Shape.gives_date.nullable nofun .done))
  exact (Shape.gives_record hlayout "ArchiveArgs").map fun _ h => h.2.2.1

theorem Request.gives_scheduler (levels : Nat) :
    schedulerShape.Gives (levels + 1) fun n => n ≤ Number.greatestUnsigned32 := by
  have hdefault : defaultMaxRetries ≤ Number.greatestUnsigned32 := by decide
  have hlayout : schedulerLayout.Gives levels _ _ :=
    .field Shape.gives_unsigned32 hdefault .done
  exact (Shape.gives_record hlayout "SchedulerArgs").map fun _ h => h.1

/-- Whatever document gives a request, its arguments are such as reading a text gives them, and its
    other fields have values that a document can hold. -/
theorem Request.gives_held : shape.Gives nestingLimit fun r =>
    ((Json.object r.args).Parsed ∧ (Json.object r.args).depth < nestingLimit) ∧
      (∀ archive, r.archive = some archive → ∀ t, archive.after = some t → t.Shows) ∧
      r.maxRetries ≤ Number.greatestUnsigned32 := by
  have hempty : (Json.object []).Parsed ∧ (Json.object []).depth ≤ 126 :=
    ⟨.object .nil (List.forall_mem_nil _), by decide⟩
  have hdefault : defaultMaxRetries ≤ Number.greatestUnsigned32 := by decide
  have hlayout : layout.Gives 126 _ _ :=
    .field Shape.gives_true trivial <|
    .field Shape.gives_true trivial <|
    .field Shape.gives_true trivial <|
    .field Shape.gives_true trivial <|
    .field Shape.gives_fields hempty <|
    .field (ArchiveArgs.gives_shown 125).nullable nofun <|
    .field (gives_scheduler 125) hdefault <|
    .field Shape.gives_true trivial .done
  refine (Shape.gives_record hlayout "JobRequest").map ?_
  rintro ⟨jobId, taskId, backend, category, args, archive, maxRetries, queue, ⟨⟩⟩
    ⟨-, -, -, -, ⟨hargs, hdepth⟩, hafter, hretries, -⟩
  exact ⟨⟨hargs, Nat.lt_succ_of_le hdepth⟩, hafter, hretries⟩

/-- A request that a document gives fits one, if its floating-point numbers are read back. -/
theorem Request.gives_fitting : shape.Gives nestingLimit fun r =>
    (∀ x, Json.Within (.number (.real x)) (.object r.args) → (Number.real x).ReadsBack) →
      r.FitsDocument := by
  intro cs r left hread hreal
  obtain ⟨⟨hargs, hdepth⟩, hafter, hretries⟩ := gives_held cs r left hread
  exact ⟨hargs, hreal, hdepth, hafter, hretries⟩

/-- The arguments of a request that a text gives are in order of their names. -/
theorem Request.ordered_args {cs : List Char} {r : Request} (h : shape.ofChars cs = .ok r) :
    r.args.Ordered := by
  obtain ⟨left, hread, -⟩ := of_readWhole_eq_ok h
  exact (gives_held _ r left hread).1.1.ordered r.args .self

/-- Whatever a text gives a request from, with defaults or without, the text of the request gives it
    again. -/
theorem Request.ofText_text {s : String} {r : Request} (h : shape.ofText s = .ok r)
    (hreal : ∀ x, Json.Within (.number (.real x)) (.object r.args) →
      (Number.real x).ReadsBack) : shape.ofText r.toJson.text = .ok r := by
  obtain ⟨left, hread, -⟩ := of_readWhole_eq_ok h
  exact (reads_toJson (gives_fitting _ r left hread hreal)).ofText

/-! ## Checkpoints -/

/-- A checkpoint whose fields have values that a document can hold: a finite time, if any, and
    numbers of the bits that the fields have. -/
structure Checkpoint.FitsDocument (c : Checkpoint) : Prop where
  maxDate : ∀ x, c.maxDate = some x → x.isFinite = true ∧ (Number.real x).ReadsBack
  items : c.items ≤ Number.greatestUnsigned64
  offset : ∀ n, c.offset = some n → Number.leastSigned64 ≤ n ∧ n ≤ Number.greatestSigned64
  resumes : c.resumes ≤ Number.greatestUnsigned32

theorem Checkpoint.reads_toJson {c : Checkpoint} (h : c.FitsDocument) :
    shape.Reads nestingLimit c.toJson c := by
  have hlastUuid : Shape.text.nullable.Reads 126 (.ofOption .string c.lastUuid) c.lastUuid := by
    apply Shape.reads_nullable
    intro s _
    exact ⟨Shape.reads_text s, Shape.present_string s⟩
  have hmaxDate : Shape.real.nullable.Reads 126 (.ofOption .ofFloat c.maxDate) c.maxDate := by
    apply Shape.reads_nullable
    intro x hx
    obtain ⟨hfinite, hback⟩ := h.maxDate x hx
    refine ⟨Shape.reads_real hfinite hback, ?_⟩
    rw [ofFloat, if_pos hfinite]
    exact Shape.present_number hback.isRead
  have hoffset : Shape.signed64.nullable.Reads 126 (.ofOption .ofInt c.offset) c.offset := by
    apply Shape.reads_nullable
    intro n hn
    have hbounds := h.offset n hn
    have hgreatest : Number.greatestSigned64 ≤ (Number.greatestUnsigned64 : Int) := by decide
    have hfits : Number.Fits n := ⟨hbounds.1, by omega⟩
    exact ⟨Shape.reads_signed64 hbounds, Shape.present_number (readsBack_of_fits hfits).isRead⟩
  have hnames : layout.names.Nodup := by decide
  have hrecord : (Shape.record "JobCheckpoint" layout).Reads nestingLimit c.toJson
      (c.jobId, c.taskId, c.backend, c.category, c.lastUuid, c.maxDate, c.items, c.offset,
        c.resumes, ()) := by
    refine Shape.reads_record hnames ?_ "JobCheckpoint"
    refine .field (Shape.reads_text c.jobId) (.field (Shape.reads_text c.taskId) ?_)
    refine .field (Shape.reads_text c.backend) (.field (Shape.reads_text c.category) ?_)
    refine .field hlastUuid (.field hmaxDate (.field (Shape.reads_unsigned64 h.items) ?_))
    exact .field hoffset (.field (Shape.reads_unsigned32 h.resumes) .done)
  exact hrecord.map _

/-- The document of a request is read back as the request, and that of a checkpoint as the
    checkpoint. -/
theorem documents_read_back {r : Request} (hr : r.FitsDocument) {c : Checkpoint}
    (hc : c.FitsDocument) :
    Request.shape.ofText r.toJson.text = .ok r ∧
      Checkpoint.shape.ofText c.toJson.text = .ok c :=
  ⟨(Request.reads_toJson hr).ofText, (Checkpoint.reads_toJson hc).ofText⟩

/-- A request with empty texts and the greatest number of retries, which replays what was archived
    after a leap second of a year past 9999. -/
def extremeRequest : Request where
  jobId := some ""
  taskId := ""
  backend := "jsonl"
  category := "item"
  args := [("\x22\n", .array [.ofInt Number.leastSigned64, .number (.real 0.5)])]
  archive := some (.replay "" (some ⟨253402300859, 1500000000⟩))
  maxRetries := Number.greatestUnsigned32
  queue := ""

/-- A checkpoint with a time of half a second and the least offset. -/
def extremeCheckpoint : Checkpoint :=
  ⟨"", "", "", "", none, some 0.5, Number.greatestUnsigned64, some Number.leastSigned64,
    Number.greatestUnsigned32⟩

theorem extremeRequest_fitsDocument : extremeRequest.FitsDocument := by
  have hargs : (Json.object extremeRequest.args).Parsed := by
    apply Parsed.object (List.pairwise_singleton _ _)
    intro e he
    rw [List.mem_singleton.mp he]
    apply Parsed.array
    intro v hv
    simp only [List.mem_cons, List.not_mem_nil, or_false] at hv
    rcases hv with rfl | rfl
    · apply Parsed.number
      rintro _ ⟨⟩
      exact ⟨by decide, by decide⟩
    · exact Parsed.number nofun
  have hreal : ∀ x, Json.Within (.number (.real x)) (.object extremeRequest.args) →
      (Number.real x).ReadsBack := by
    intro x hx
    cases hx with
    | field hv hx =>
      obtain ⟨-, rfl⟩ := Prod.mk.inj (List.mem_singleton.mp hv)
      cases hx with
      | item hv hx =>
        simp only [List.mem_cons, List.not_mem_nil, or_false] at hv
        rcases hv with rfl | rfl
        · cases hx
        · cases hx
          rfl
  refine ⟨hargs, hreal, by decide, ?_, by decide⟩
  rintro _ ⟨⟩ _ ⟨⟩
  exact ⟨by decide, .inr (by decide)⟩

theorem extremeCheckpoint_fitsDocument : extremeCheckpoint.FitsDocument := by
  refine ⟨?_, by decide, ?_, by decide⟩
  · rintro _ ⟨⟩
    exact ⟨by decide, rfl⟩
  · rintro _ ⟨⟩
    exact ⟨by decide, by decide⟩

/-- Values at the ends of what the fields can have are read back. -/
theorem extremes_read_back :
    extremeRequest.FitsDocument ∧ extremeCheckpoint.FitsDocument ∧
      Request.shape.ofText extremeRequest.toJson.text = .ok extremeRequest ∧
      Checkpoint.shape.ofText extremeCheckpoint.toJson.text = .ok extremeCheckpoint :=
  ⟨extremeRequest_fitsDocument, extremeCheckpoint_fitsDocument,
    documents_read_back extremeRequest_fitsDocument extremeCheckpoint_fitsDocument⟩

/-- A request for what was archived after an instant, of an archive at a path. -/
def afterInstant (t : Calendar.Instant) : Request where
  jobId := some "job-1"
  taskId := "task-1"
  backend := "jsonl"
  category := "item"
  args := []
  archive := some (.replay "arch" (some t))
  maxRetries := 3
  queue := "items"

/-- An instant with nanoseconds beyond a second is shown as one of the next second, and where the
    minute goes on it is read back as that one: thirty seconds and 1500000000 nanoseconds are read
    back as thirty-one and 500000000. -/
theorem beyond_second_not_read_back :
    Request.shape.ofText (afterInstant ⟨1704067230, 1500000000⟩).toJson.text =
        .ok (afterInstant ⟨1704067231, 500000000⟩) ∧
      afterInstant ⟨1704067231, 500000000⟩ ≠ afterInstant ⟨1704067230, 1500000000⟩ := by
  have htext : Calendar.Instant.text ⟨1704067230, 1500000000⟩ =
      Calendar.Instant.text ⟨1704067231, 500000000⟩ := by decide +kernel
  have hsame : (afterInstant ⟨1704067230, 1500000000⟩).toJson =
      (afterInstant ⟨1704067231, 500000000⟩).toJson := by
    simp only [afterInstant, Request.toJson, ArchiveArgs.replay, ArchiveArgs.toJson, ofOption,
      htext]
  have hfits : (afterInstant ⟨1704067231, 500000000⟩).FitsDocument := by
    refine ⟨.object .nil (List.forall_mem_nil _), ?_, by decide, ?_, by decide⟩
    · intro x hx
      cases hx with
      | field hv hx => cases hv
    · rintro _ ⟨⟩ _ ⟨⟩
      exact ⟨by decide, .inl (by decide)⟩
  refine ⟨?_, ?_⟩
  · rw [hsame]
    exact (Request.reads_toJson hfits).ofText
  · intro h
    have harchive := congrArg Request.archive h
    simp [afterInstant, ArchiveArgs.replay] at harchive

end Harvest
