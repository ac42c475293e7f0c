/-
  Harvest.Proofs.Backend.Narrowing

  A replay that is narrowed to the origin of one path. What it gives depends on the responses of
  that origin and on nothing else that the archive keeps: two archives that agree on them give the
  same items and the same errors, however malformed the other responses are. And where no response
  is malformed, narrowing a replay picks the items of the origin out of those of all origins
  (`narrowed_replay_isolated`).
-/
import Harvest.Proofs.Archive.Unfinished
import Harvest.Proofs.Backend.Rebuild
import Harvest.Proofs.Backend.Selection

namespace Harvest

/-! ## Arguments without one of them -/

namespace Fields

/-- The fields but those of a name. -/
def without (fields : Fields) (name : String) : Fields := fields.filter fun e => e.1 ≠ name

theorem get?_without_self (fields : Fields) (name : String) :
    (fields.without name).get? name = none := by
  apply get?_eq_none_of_notMem
  simp [without]

theorem get?_without_of_ne (fields : Fields) {name other : String} (h : other ≠ name) :
    (fields.without name).get? other = fields.get? other := by
  induction fields with
  | nil => rfl
  | cons e rest ih =>
    obtain ⟨k, v⟩ := e
    unfold without at ih ⊢
    by_cases hk : k = name
    · rw [List.filter_cons_of_neg (by simpa using hk), ih, get?_cons, if_neg (by rwa [hk])]
    · rw [List.filter_cons_of_pos (by simpa using hk), get?_cons, get?_cons, ih]

end Fields

/-- The filters are read from other arguments than the path. -/
theorem Filters.ofArgs_without_path (args : Fields) :
    ofArgs (args.without pathArgument) = ofArgs args := by
  unfold ofArgs dateOf offsetOf
  rw [Fields.get?_without_of_ne args (by decide), Fields.get?_without_of_ne args (by decide)]

/-! ## Archives with readable responses -/

/-- A stream that only looks at the world as long as one thing is so does it as long as more is. -/
theorem Draw.Reads.mono {σ α : Type} {C D : σ → Prop} (hCD : ∀ s, D s → C s) {s : σ}
    {d : Draw σ α} {as : List α} (h : d.Reads C s as) : d.Reads D s as := by
  induction h with
  | stop => exact .stop
  | item h ih => exact .item fun s hs => ih s (hCD s hs)

namespace Archive

/-- The file of the items of an archive holds the lines of some responses and no line that cannot
    be read. An archive in which no item was stored has no such file. -/
inductive Records (a : Archive) (files : FileTree) : List Response → Prop where
  | none (h : files.locate (a.categoryPath recordCategory) = .error .notFound) :
      Records a files []
  | file {place : Location} {content : Bytes} {rs : List Response}
      (hplace : files.locate (a.categoryPath recordCategory) = .ok place)
      (hcontent : files.content place = .ok content)
      (hreads : readLines Option.none (linesOf content) = rs.map .ok) : Records a files rs

/-- What becomes of the files leaves that of the items of an archive as it was. -/
def Stays (a : Archive) (files later : FileTree) : Prop :=
  ∀ place, files.locate (a.categoryPath recordCategory) = .ok place →
    later.content place = files.content place

/-- The stream of the responses gives those that are asked for. -/
theorem Records.responses {β : Type} {a : Archive} {env : Env β} {rs : List Response}
    (h : a.Records env.files rs) (after : Option Calendar.Instant) :
    ∃ feed : Feed (Env β) (Except ArchiveError Response),
      a.responses recordCategory after env.files = .ok feed ∧
      (feed env).Reads (fun later => a.Stays env.files later.files) env
        ((rs.filter (isLater after)).map .ok) := by
  cases h with
  | none hmissing =>
    refine ⟨Feed.empty, ?_, .stop⟩
    unfold Archive.responses
    rw [hmissing]
  | file hplace hcontent hreads =>
    obtain ⟨feed, hfeed, hgives⟩ := responses_of_file hplace hcontent after
    rw [readLines_later hreads] at hgives
    refine ⟨feed, hfeed, hgives.mono ?_⟩
    intro later hstays
    rw [hstays _ hplace, hcontent]

end Archive

/-! ## What responses give -/

/-- The origin of an item. -/
def Item.origin? (i : Item) : Option String := i.get? "origin" >>= Json.asString?

/-- A response that is well formed: it has the number of a line, and a record that has an own
    identifier and a date. -/
structure Response.Wellformed (r : Response) : Prop where
  line : ∃ line, (r.payload.get? "line" >>= Json.asInt64?) = some line
  record : ∃ record id seconds, r.payload.get? "record" = some record ∧
    Record.HasId record id ∧ Record.HasDate record seconds

/-- The item of a record is of the origin of the record. -/
theorem Record.origin?_itemOf (origin category id : String) (next : Int) (seconds : Float)
    (record : Json) : (itemOf origin category id next seconds record).origin? = some origin := by
  unfold Item.origin?
  rw [get?_itemOf]
  rfl

namespace Lines

/-- What the responses of an archive give in a replay. -/
def replies (origin : Option String) (filters : Filters) (after : Option Calendar.Instant)
    (rs : List Response) : List (Except BackendError Item) :=
  ((rs.filter (Archive.isLater after)).map .ok).filterMap (replayed origin filters)

section

variable {origin : Option String} {filters : Filters} {after : Option Calendar.Instant}
  {r : Response}

theorem replies_of_earlier (h : Archive.isLater after r = false) (rs : List Response) :
    replies origin filters after (r :: rs) = replies origin filters after rs := by
  rw [replies, List.filter_cons_of_neg (by simp [h]), replies]

theorem replies_of_later (h : Archive.isLater after r = true) (rs : List Response) :
    replies origin filters after (r :: rs) =
      (replayed origin filters (.ok r)).toList ++ replies origin filters after rs := by
  rw [replies, List.filter_cons_of_pos h, List.map_cons, List.filterMap_cons, replies]
  cases replayed origin filters (.ok r) with
  | none => rfl
  | some reply => rfl

end

/-- A response of another origin gives nothing, whatever is in it. -/
theorem replayed_of_foreign {o : String} {r : Response} (h : r.origin ≠ o) (filters : Filters) :
    replayed (some o) filters (.ok r) = none := by
  unfold replayed
  exact if_pos (by simpa using Ne.symm h)

/-- A response of the origin that is asked for gives what it gives if all origins are. -/
theorem replayed_of_own (r : Response) (filters : Filters) :
    replayed (some r.origin) filters (.ok r) = replayed none filters (.ok r) := by
  unfold replayed
  simp

/-- The replies for one origin are those to the responses of the origin. -/
theorem replies_own (o : String) (filters : Filters) (after : Option Calendar.Instant)
    (rs : List Response) :
    replies (some o) filters after rs =
      replies (some o) filters after (rs.filter fun r => r.origin = o) := by
  induction rs with
  | nil => rfl
  | cons r rs ih =>
    by_cases horigin : r.origin = o
    · rw [List.filter_cons_of_pos (by simpa using horigin)]
      cases hlater : Archive.isLater after r with
      | false => rw [replies_of_earlier hlater, replies_of_earlier hlater, ih]
      | true => rw [replies_of_later hlater, replies_of_later hlater, ih]
    · rw [List.filter_cons_of_neg (by simpa using horigin), ← ih]
      cases hlater : Archive.isLater after r with
      | false => rw [replies_of_earlier hlater]
      | true =>
        rw [replies_of_later hlater, replayed_of_foreign horigin]
        rfl

/-- A well-formed response gives an item of its own origin, unless it is passed over. -/
theorem replayed_of_wellformed {r : Response} (h : r.Wellformed) (filters : Filters) :
    ∃ item? : Option Item, replayed none filters (.ok r) = item?.map .ok ∧
      ∀ item ∈ item?, item.origin? = some r.origin := by
  obtain ⟨line, hline⟩ := h.line
  obtain ⟨record, id, seconds, hrecord, hid, hdate⟩ := h.record
  have hitem : Record.toItem r.origin r.category line (Number.wrapSigned64 (line + 1)) record =
      .ok (Record.itemOf r.origin r.category id (Number.wrapSigned64 (line + 1)) seconds record) :=
    Record.toItem_eq_ok_iff.mpr ⟨id, seconds, hid, hdate, rfl⟩
  have horigin := Record.origin?_itemOf r.origin r.category id (Number.wrapSigned64 (line + 1))
    seconds record
  generalize Record.itemOf r.origin r.category id (Number.wrapSigned64 (line + 1)) seconds record =
    item at hitem horigin
  unfold replayed
  dsimp only
  rw [Option.any_none, if_neg Bool.false_ne_true, hline, hrecord, Option.getD_some]
  dsimp only
  rw [hitem]
  dsimp only
  by_cases hpassed : filters.skipsLine line = true ∨ filters.skipsItem item = true
  · refine ⟨none, ?_, nofun⟩
    rcases hpassed with hskips | hearly
    · rw [if_pos hskips]
      rfl
    · rw [if_pos hearly, ite_self]
      rfl
  · rw [not_or] at hpassed
    refine ⟨some item, ?_, ?_⟩
    · rw [if_neg hpassed.1, if_neg hpassed.2]
      rfl
    · rintro _ ⟨⟩
      exact horigin

/-- Well-formed responses give items only, and for one origin those of the origin. -/
theorem replies_of_wellformed {rs : List Response} (h : ∀ r ∈ rs, r.Wellformed)
    (filters : Filters) (after : Option Calendar.Instant) :
    ∃ items : List Item, replies none filters after rs = items.map .ok ∧
      ∀ o, replies (some o) filters after rs =
        (items.filter fun i => i.origin? = some o).map .ok := by
  induction rs with
  | nil => exact ⟨[], rfl, fun _ => rfl⟩
  | cons r rs ih =>
    obtain ⟨items, hall, hown⟩ := ih fun s hs => h s (List.mem_cons_of_mem r hs)
    cases hlater : Archive.isLater after r with
    | false =>
      refine ⟨items, ?_, fun o => ?_⟩
      · rw [replies_of_earlier hlater, hall]
      · rw [replies_of_earlier hlater, hown o]
    | true =>
      obtain ⟨item?, hitem, horigin⟩ := replayed_of_wellformed (h r List.mem_cons_self) filters
      refine ⟨item?.toList ++ items, ?_, fun o => ?_⟩
      · rw [replies_of_later hlater, hitem, hall, List.map_append]
        cases item? with
        | none => rfl
        | some item => rfl
      · rw [replies_of_later hlater, hown o, List.filter_append, List.map_append]
        congr 1
        by_cases ho : r.origin = o
        · subst ho
          rw [replayed_of_own, hitem]
          cases item? with
          | none => rfl
          | some item => simp [horigin item rfl]
        · rw [replayed_of_foreign ho]
          cases item? with
          | none => rfl
          | some item => simp [horigin item rfl, ho]

/-! ## The replay -/

/-- A replay is opened, and gives some results one after the other. It leaves the world alone, and
    the world may change between two results as long as the file of the items stays what it is. -/
def Replays {β : Type} (args : Fields) (after : Option Calendar.Instant) (a : Archive)
    (env : Env β) (results : List (Except BackendError Item)) : Prop :=
  ∃ items : Items β, backend.replay recordCategory args a after env = (.ok items, env) ∧
    (items env).Reads (fun later => a.Stays env.files later.files) env results

theorem replays_of_records {β : Type} {args : Fields} {origin : Option String}
    {filters : Filters} {a : Archive} {env : Env β} {rs : List Response}
    (horigin : AsksFor args origin) (hfilters : Filters.ofArgs args = .ok filters)
    (hrecords : a.Records env.files rs) (after : Option Calendar.Instant) :
    Replays args after a env (replies origin filters after rs) := by
  obtain ⟨feed, hfeed, hreads⟩ := hrecords.responses after
  refine ⟨feed.filterMap (replayed origin filters), ?_, ?_⟩
  · show (replay recordCategory args a after env, env) = _
    rw [replay_of_asked horigin hfilters hfeed]
  · exact hreads.filterMap (fun _ _ => rfl) (replayed origin filters)

/-- A replay that is narrowed to a path gives the same results from two archives that agree on the
    responses of that origin. If no response of an archive is malformed, these are the items of the
    origin among those that a replay without the path gives. -/
theorem narrowed_replay_isolated {β γ : Type} {args : Fields} {o : String} {filters : Filters}
    (hpath : requiredPath args = .ok o) (hfilters : Filters.ofArgs args = .ok filters)
    {a b : Archive} {env : Env β} {env' : Env γ} {rs ss : List Response}
    (ha : a.Records env.files rs) (hb : b.Records env'.files ss)
    (hagree : (rs.filter fun r => r.origin = o) = ss.filter fun r => r.origin = o)
    (after : Option Calendar.Instant) :
    ∃ results, Replays args after a env results ∧ Replays args after b env' results ∧
      ((∀ r ∈ rs, r.Wellformed) → ∃ all : List Item,
        Replays (args.without pathArgument) after a env (all.map .ok) ∧
        results = (all.filter fun i => i.origin? = some o).map .ok) ∧
      ((∀ r ∈ ss, r.Wellformed) → ∃ all : List Item,
        Replays (args.without pathArgument) after b env' (all.map .ok) ∧
        results = (all.filter fun i => i.origin? = some o).map .ok) := by
  have hsame : replies (some o) filters after ss = replies (some o) filters after rs := by
    rw [replies_own o filters after ss, ← hagree, ← replies_own]
  have hwide : AsksFor (args.without pathArgument) none := .all (args.get?_without_self _)
  have hfilters' := (Filters.ofArgs_without_path args).trans hfilters
  refine ⟨replies (some o) filters after rs, replays_of_records (.one hpath) hfilters ha after,
    ?_, ?_, ?_⟩
  · rw [← hsame]
    exact replays_of_records (.one hpath) hfilters hb after
  · intro hwell
    obtain ⟨all, hall, hown⟩ := replies_of_wellformed hwell filters after
    refine ⟨all, ?_, hown o⟩
    rw [← hall]
    exact replays_of_records hwide hfilters' ha after
  · intro hwell
    obtain ⟨all, hall, hown⟩ := replies_of_wellformed hwell filters after
    refine ⟨all, ?_, hsame.symm.trans (hown o)⟩
    rw [← hall]
    exact replays_of_records hwide hfilters' hb after

/-- A response with a record of a file. -/
def keptResponse (origin : String) : Response :=
  ⟨recordCategory, origin, ⟨0, 0⟩, Record.payload 0 keptRecord⟩

theorem keptResponse_readsBack (origin : String) : (keptResponse origin).ReadsBack where
  shows := Archive.plainResponse_readsBack.shows
  payload := Record.readsBack_payload (by decide) (by decide) keptRecord_parsed
    fun x hx => absurd hx (not_real_keptRecord x)
  depth := by
    show (Record.payload 0 keptRecord).depth ≤ 126
    decide

theorem keptResponse_wellformed (origin : String) : (keptResponse origin).Wellformed where
  line := ⟨0, rfl⟩
  record := ⟨keptRecord, "a", _, rfl, .text rfl, .number rfl⟩

/-- A response of a second file, without a line and a record. -/
def strayResponse : Response := ⟨recordCategory, "b.jsonl", ⟨0, 0⟩, .null⟩

theorem strayResponse_readsBack : strayResponse.ReadsBack :=
  ⟨Archive.plainResponse_readsBack.shows, Archive.plainResponse_readsBack.payload, Nat.zero_le _⟩

/-- The world of an archive with some responses. -/
def worldOf (rs : List Response) : Env Unit :=
  ⟨Archive.filesWith (rs.flatMap Response.line), ⟨fun _ => ⟨0, 0⟩, 0⟩, ()⟩

theorem records_worldOf {rs : List Response} (h : ∀ r ∈ rs, r.ReadsBack) :
    keptArchive.Records (worldOf rs).files rs := by
  apply Archive.Records.file (Archive.locate_filesWith _) (Archive.content_filesWith _)
  have hall : rs.filter (Archive.isLater none) = rs := List.filter_eq_self.mpr fun _ _ => rfl
  rw [Archive.readLines_lines h, hall]

/-- A malformed response and an item of a second file make no difference to the item of the
    first one. -/
theorem stray_response_makes_no_difference :
    let args : Fields := [(pathArgument, .string "a.jsonl")]
    let mixed := [strayResponse, keptResponse "a.jsonl", keptResponse "b.jsonl"]
    let own := [keptResponse "a.jsonl"]
    requiredPath args = .ok "a.jsonl" ∧ Filters.ofArgs args = .ok ⟨none, 0⟩ ∧
      keptArchive.Records (worldOf mixed).files mixed ∧
      keptArchive.Records (worldOf own).files own ∧
      ∃ results, results.map Except.isOk = [true] ∧
        Replays args none keptArchive (worldOf mixed) results ∧
        Replays args none keptArchive (worldOf own) results ∧
        ∃ all : List Item, Replays [] none keptArchive (worldOf own) (all.map .ok) ∧
          results = (all.filter fun i => i.origin? = some "a.jsonl").map .ok := by
  intro args mixed own
  have hpath : requiredPath args = .ok "a.jsonl" := rfl
  have hfilters : Filters.ofArgs args = .ok ⟨none, 0⟩ := rfl
  have hmixed : keptArchive.Records (worldOf mixed).files mixed := by
    apply records_worldOf
    intro r hr
    simp only [mixed, List.mem_cons, List.not_mem_nil, or_false] at hr
    rcases hr with rfl | rfl | rfl
    · exact strayResponse_readsBack
    · exact keptResponse_readsBack _
    · exact keptResponse_readsBack _
  have hown : keptArchive.Records (worldOf own).files own := by
    apply records_worldOf
    intro r hr
    rw [List.mem_singleton.mp hr]
    exact keptResponse_readsBack _
  have hwell : ∀ r ∈ own, r.Wellformed := by
    intro r hr
    rw [List.mem_singleton.mp hr]
    exact keptResponse_wellformed _
  have hagree : (mixed.filter fun r => r.origin = "a.jsonl") =
      own.filter fun r => r.origin = "a.jsonl" := rfl
  obtain ⟨results, hreplayed, hreplayed', -, hall⟩ :=
    narrowed_replay_isolated hpath hfilters hmixed hown hagree none
  refine ⟨hpath, hfilters, hmixed, hown, results, ?_, hreplayed, hreplayed', hall hwell⟩
  have hgiven : ((backend.replay recordCategory args keptArchive none
      (worldOf own)).1.toOption.map fun items =>
        (items (worldOf own)).drain.1.map Except.isOk) = some [true] := by decide +kernel
  obtain ⟨items, hitems, hreads⟩ := hreplayed'
  rw [hitems] at hgiven
  have hdrain := hreads.drain (fun _ _ => rfl)
  rw [Except.toOption, Option.map_some, hdrain] at hgiven
  exact Option.some.inj hgiven

end Lines

end Harvest
