/-
  Harvest.Proofs.Backend.Rebuild

  Replaying what a fetch has archived. The response that is stored of a record is read back from
  its line, as long as the record does not nest too deep and its numbers are read back
  (`Entry.readsBack`), and replaying it makes the item of the record anew (`Entry.replayed`). So a
  replay rebuilds what was fetched, from the archive alone (`replay_rebuilds`).
-/
import Harvest.Proofs.Backend.Collecting
import Harvest.Proofs.Backend.Replaying
import Harvest.Proofs.Json.Parsed

namespace Harvest

/-! ## What is archived of a record -/

namespace Record

theorem payload_eq (line : Int) (record : Json) :
    payload line record = .object [("line", .ofInt line), ("record", record)] := by
  have hne : ¬ "record" = "line" := by decide
  have hless : ¬ "record" < "line" := by decide
  simp only [payload, Json.ofFields, Fields.insertAll, Fields.insert, List.foldl_cons,
    List.foldl_nil, if_neg hne, if_neg hless]

theorem get?_payload_line (line : Int) (record : Json) :
    (payload line record).get? "line" = some (.ofInt line) := by
  simp [payload_eq, Json.get?, Fields.get?_cons]

theorem get?_payload_record (line : Int) (record : Json) :
    (payload line record).get? "record" = some record := by
  simp [payload_eq, Json.get?, Fields.get?_cons]

/-- What is archived of a record nests one level deeper. -/
theorem depth_payload (line : Int) (record : Json) :
    (payload line record).depth = record.depth + 1 := by
  rw [payload_eq]
  show max 0 (max record.depth 0) + 1 = _
  omega

/-- What is archived of a record could have been read from a text, as the record was. -/
theorem parsed_payload {line : Int} {record : Json} (hpos : 0 ≤ line)
    (hfits : line ≤ Number.greatestSigned64) (hparsed : record.Parsed) :
    (payload line record).Parsed := by
  have hline : (Json.ofInt line).Parsed := by
    apply Json.Parsed.number
    intro n hn
    cases hn
    have hleast : Number.leastSigned64 ≤ 0 := by decide
    have hgreatest : Number.greatestSigned64 ≤ (Number.greatestUnsigned64 : Int) := by decide
    exact ⟨by omega, by omega⟩
  have hordered : Fields.Ordered [("line", .ofInt line), ("record", record)] := by
    refine List.pairwise_pair.mpr ?_
    show "line" < "record"
    decide
  rw [payload_eq]
  apply Json.Parsed.object hordered
  intro e he
  simp only [List.mem_cons, List.not_mem_nil, or_false] at he
  rcases he with rfl | rfl
  · exact hline
  · exact hparsed

/-- The floating-point numbers in what is archived are those of the record. -/
theorem real_of_payload {line : Int} {record : Json} {x : Float}
    (hx : Json.Within (.number (.real x)) (payload line record)) :
    Json.Within (.number (.real x)) record := by
  rw [payload_eq] at hx
  cases hx with
  | field hv hx =>
    simp only [List.mem_cons, List.not_mem_nil, or_false, Prod.mk.injEq] at hv
    rcases hv with ⟨-, rfl⟩ | ⟨-, rfl⟩
    · cases hx
    · exact hx

/-- What is archived of a record is read back if the record is. -/
theorem readsBack_payload {line : Int} {record : Json} (hpos : 0 ≤ line)
    (hfits : line ≤ Number.greatestSigned64) (hparsed : record.Parsed)
    (hreal : ∀ x, Json.Within (.number (.real x)) record → (Number.real x).ReadsBack) :
    (payload line record).ReadsBack :=
  (parsed_payload hpos hfits hparsed).readsBack fun x hx => hreal x (real_of_payload hx)

end Record

/-- The records of a source can be kept in an archive: they do not nest too deep for a line of it,
    and their floating-point numbers are read back from their text. -/
def Source.Storable (source : Source) : Prop :=
  ∀ line ∈ linesOf source.content, ∀ cs record, Utf8.decode (chomp line) = .ok cs →
    Json.ofChars cs = .ok record → record.depth ≤ 125 ∧
      ∀ x, Json.Within (.number (.real x)) record → (Number.real x).ReadsBack

namespace Entry

variable {β : Type} {e : Entry} {source : Source} {task : Lines.Task} {C : Env β → Prop}

/-- The response that is stored of a record is read back from its line. -/
theorem readsBack (h : e.For task (task.FindsIn source) C) (hstorable : source.Storable)
    (hshown : ∀ env, C env → ∀ n, (env.clock.shown n).Shows) : e.response.ReadsBack := by
  obtain ⟨bytes, hbytes, hpos, hfits, hread⟩ := h.record
  obtain ⟨env, henv, hresponse⟩ := h.response
  obtain ⟨⟨cs, hcs, hrecord⟩, -⟩ := Lines.readLine_eq_record hread
  obtain ⟨hdepth, hreal⟩ := hstorable bytes (List.mem_of_getElem? hbytes) cs e.record hcs hrecord
  rw [hresponse]
  constructor
  · exact hshown env henv env.clock.readings
  · exact Record.readsBack_payload hpos (Int.le_of_lt hfits) (Json.parsed_ofChars hrecord) hreal
  · show (Record.payload e.line e.record).depth ≤ 126
    rw [Record.depth_payload]
    omega

/-- Replaying the response that is stored of a record makes its item anew. -/
theorem replayed (h : e.For task (task.FindsIn source) C) :
    Lines.replayed (some task.origin) task.filters (.ok e.response) = some (.ok e.item) := by
  obtain ⟨bytes, -, hpos, hfits, hread⟩ := h.record
  obtain ⟨env, -, hresponse⟩ := h.response
  obtain ⟨-, hitem, hline, hskips⟩ := Lines.readLine_eq_record hread
  -- The payload has the line and the record, from which the item is made as it was.
  have hnumber : ((Record.payload e.line e.record).get? "line" >>= Json.asInt64?) =
      some e.line := by
    rw [Record.get?_payload_line]
    exact Json.asInt64?_ofInt hpos (Int.le_of_lt hfits)
  have horigin : ¬ (some task.origin).any (· ≠ task.origin) = true := by simp
  rw [hresponse]
  unfold Lines.replayed Archive.offered
  dsimp only
  rw [if_neg horigin, hnumber, Record.get?_payload_record]
  dsimp only [Option.getD_some]
  rw [hline, if_neg Bool.false_ne_true, Number.wrapSigned64_next hpos hfits, hitem]
  dsimp only
  rw [hskips, if_neg Bool.false_ne_true]

/-- Replaying the responses of entries makes all their items anew. -/
theorem replayed_all {entries : List Entry}
    (h : ∀ e ∈ entries, e.For task (task.FindsIn source) C) :
    ((entries.map Entry.response).map .ok).filterMap
        (Lines.replayed (some task.origin) task.filters) = (entries.map Entry.item).map .ok := by
  induction entries with
  | nil => rfl
  | cons e entries ih =>
    have hfirst := replayed (h e List.mem_cons_self)
    have hrest := ih fun e he => h e (List.mem_cons_of_mem _ he)
    simp only [List.map_cons]
    rw [List.filterMap_cons_some hfirst, hrest]

end Entry

/-! ## Rebuilding what was fetched -/

/-- A source is not the file of an archive, and is what it was; the clock shows what it showed. -/
structure Source.Stays {β : Type} (source : Source) (a : Archive) (category : String)
    (shown : Nat → Calendar.Instant) (env : Env β) : Prop where
  apart : a.Apart category env.files source.place
  content : env.files.content source.place = .ok source.content
  shown : env.clock.shown = shown

/-- Storing responses leaves a source that is not the file of the archive, and what the clock
    shows. -/
theorem Source.Stays.store {β : Type} {source : Source} {a : Archive} {category : String}
    {shown : Nat → Calendar.Instant} {line : Int} {record : Json} {origin : String} {r : Response}
    {env env' : Env β} (hstays : source.Stays a category shown env)
    (h : a.store category origin (Record.payload line record) env = (.ok r, env')) :
    source.Stays a category shown env' := by
  obtain ⟨-, happend, henv'⟩ := Archive.store_ok h
  obtain ⟨hapart, hcontent⟩ := hstays.apart.append hstays.content r.line
  rw [happend] at hapart hcontent
  refine ⟨hapart, hcontent, ?_⟩
  rw [henv']
  exact hstays.shown

/-- A replay makes all items anew that a fetch gave, in their order and with nothing else, if the
    archive held nothing of the category before and had no part in the end of the fetch. It needs
    no more than what the archive holds, whatever has become of the source, and leaves the world
    alone. -/
theorem replay_rebuilds {β γ : Type} {source : Source} {args : Fields} {filters : Filters}
    {a : Archive} {env : Env β} (hpath : requiredPath args = .ok source.path)
    (hfilters : Filters.ofArgs args = .ok filters) (hsource : source.In env.files)
    (hstorable : source.Storable) (hlacks : a.Lacks recordCategory env.files)
    (hshown : ∀ n, (env.clock.shown n).Shows) :
    ∃ items : Items β, Lines.backend.fetch recordCategory args (some a) env = (.ok items, env) ∧
      ∀ fetched after, (items env).drain = (fetched, after) →
        (∀ e, .error (.archive e) ∉ fetched) → ∀ later : Env γ,
          a.found recordCategory later.files = a.found recordCategory after.files →
          ∃ again : Items γ,
            Lines.backend.replay recordCategory args a none later = (.ok again, later) ∧
            (again later).drain = ((fetched.filterMap Except.toOption).map .ok, later) := by
  have hfetch := Lines.fetch_of_accepted hpath hfilters hsource.located (some a) .sound
  generalize Feed.unfold _ _ _ = items at hfetch
  refine ⟨items, ?_, ?_⟩
  · show (Lines.fetch recordCategory args (some a) env, env) = _
    rw [hfetch]
  intro fetched after hdrained _ later hsame
  -- The source is not the file of the archive, which is not there yet.
  have hstays : source.Stays a recordCategory env.clock.shown env :=
    ⟨.inl hlacks, hsource.content, rfl⟩
  have hstores := Lines.fetch_stores_source hpath hfilters hsource
    (fun e (he : source.Stays a recordCategory env.clock.shown e) => he.content) hfetch hstays
  have hdrain := hstores.drain (fun _ _ _ _ _ he h => he.store h) hstays
  rw [hdrained] at hdrain
  obtain ⟨entries, hentries, hitems, hgains⟩ := hdrain
  have hend := hgains [] (.none hlacks)
  rw [List.nil_append] at hend
  have hback : ∀ r ∈ entries.map Entry.response, r.ReadsBack := by
    intro r hr
    obtain ⟨e, he, rfl⟩ := List.mem_map.mp hr
    refine Entry.readsBack (hentries e he) hstorable ?_
    intro env' henv' n
    rw [henv'.shown]
    exact hshown n
  obtain ⟨responses, hresponses, hread⟩ := Archive.responses_of_holds hend hback hsame none
  refine ⟨responses.filterMap (Lines.replayed (some source.path) filters), ?_, ?_⟩
  · show (Lines.replay recordCategory args a none later, later) = _
    rw [Lines.replay_of_asked (.one hpath) hfilters hresponses]
  · have hall : (entries.map Entry.response).filter (Archive.isLater none) =
        entries.map Entry.response := List.filter_eq_self.mpr fun _ _ => rfl
    have hmade := Entry.replayed_all hentries
    show ((responses later).filterMap _).drain = _
    rw [Draw.drain_filterMap, hread, hall]
    dsimp only at hitems ⊢
    rw [hitems, ← hmade]

/-- A record. -/
def keptRecord : Json := .object [("id", .string "a"), ("updated", .ofInt 200)]

/-- A file of the record, with an error behind it. -/
def keptSource : Source where
  path := "records.jsonl"
  place := ["records.jsonl"]
  content := Utf8.encode (keptRecord.chars ++ ['\n']) ++ Utf8.ofString "oops\n"
  fits := by decide +kernel

/-- The world of the file, with no archive in it. -/
def keptWorld : Env Unit :=
  ⟨⟨[(["records.jsonl"], .file keptSource.content)], []⟩, ⟨fun _ => ⟨0, 0⟩, 0⟩, ()⟩

/-- The archive that is yet to be made. -/
def keptArchive : Archive := ⟨⟨"arch"⟩⟩

/-- There is no floating-point number in the record. -/
theorem not_real_keptRecord (x : Float) : ¬ Json.Within (.number (.real x)) keptRecord := by
  intro hx
  unfold keptRecord at hx
  cases hx with
  | field hv hx =>
    simp only [List.mem_cons, List.not_mem_nil, or_false, Prod.mk.injEq] at hv
    rcases hv with ⟨-, rfl⟩ | ⟨-, rfl⟩
    · cases hx
    · cases hx

theorem keptRecord_parsed : keptRecord.Parsed := by
  apply Json.Parsed.object
  · refine List.pairwise_pair.mpr ?_
    show "id" < "updated"
    decide
  · intro e he
    simp only [List.mem_cons, List.not_mem_nil, or_false] at he
    rcases he with rfl | rfl
    · exact .string "a"
    · apply Json.Parsed.number
      intro n hn
      cases hn
      exact ⟨by decide, by decide⟩

theorem keptRecord_readsBack : keptRecord.ReadsBack :=
  keptRecord_parsed.readsBack fun x hx => absurd hx (not_real_keptRecord x)

theorem keptSource_storable : keptSource.Storable := by
  have hlines : linesOf keptSource.content =
      [Utf8.encode (keptRecord.chars ++ ['\n']), Utf8.ofString "oops\n"] := by decide +kernel
  intro line hline cs record hcs hrecord
  rw [hlines] at hline
  simp only [List.mem_cons, List.not_mem_nil, or_false] at hline
  rcases hline with rfl | rfl
  · have hchomp : chomp (Utf8.encode (keptRecord.chars ++ ['\n'])) =
        Utf8.encode keptRecord.chars := by decide +kernel
    have hread := Json.ofChars_chars (by decide) keptRecord_readsBack
    rw [hchomp, Utf8.decode_encode] at hcs
    cases hcs
    rw [hread] at hrecord
    cases hrecord
    exact ⟨by decide, fun x hx => absurd hx (not_real_keptRecord x)⟩
  · have hread : (Utf8.decode (chomp (Utf8.ofString "oops\n"))).toOption.any
        (fun cs => (Json.ofChars cs).toOption.isSome) = false := by decide +kernel
    rw [hcs] at hread
    rw [Except.toOption, Option.any_some, hrecord] at hread
    cases hread

/-- Whether what a stream gives is an error of the archive. -/
def ofArchive : Except BackendError Item → Bool
  | .error (.archive _) => true
  | _ => false

/-- The record in front of the error is rebuilt. -/
theorem rebuilds_record_before_error :
    let args : Fields := [(pathArgument, .string "records.jsonl")]
    requiredPath args = .ok keptSource.path ∧ Filters.ofArgs args = .ok ⟨none, 0⟩ ∧
      keptSource.In keptWorld.files ∧ keptSource.Storable ∧
      keptArchive.Lacks recordCategory keptWorld.files ∧
      (∀ n, (keptWorld.clock.shown n).Shows) ∧
      ∃ items : Items Unit,
        Lines.backend.fetch recordCategory args (some keptArchive) keptWorld =
          (.ok items, keptWorld) ∧
        (items keptWorld).drain.1.map Except.isOk = [true, false] ∧
        ∀ later : Env Unit, keptArchive.found recordCategory later.files =
            keptArchive.found recordCategory (items keptWorld).drain.2.files →
          ∃ again : Items Unit,
            Lines.backend.replay recordCategory args keptArchive none later =
              (.ok again, later) ∧
            (again later).drain =
              (((items keptWorld).drain.1.filterMap Except.toOption).map .ok, later) := by
  intro args
  have hpath : requiredPath args = .ok keptSource.path := rfl
  have hfilters : Filters.ofArgs args = .ok ⟨none, 0⟩ := rfl
  have hsource : keptSource.In keptWorld.files := ⟨rfl, rfl⟩
  have hlacks : keptArchive.Lacks recordCategory keptWorld.files :=
    Archive.lacks_of_prepared rfl rfl rfl
  have hshown : ∀ n, (keptWorld.clock.shown n).Shows := by
    intro n
    show (⟨0, 0⟩ : Calendar.Instant).Shows
    exact ⟨by decide, by decide⟩
  obtain ⟨items, hfetch, hrebuilt⟩ :=
    replay_rebuilds (γ := Unit) hpath hfilters hsource keptSource_storable hlacks hshown
  have hgiven : ((Lines.backend.fetch recordCategory args (some keptArchive)
      keptWorld).1.toOption.map fun items => (items keptWorld).drain.1.map Except.isOk) =
      some [true, false] := by decide +kernel
  have hclean : ((Lines.backend.fetch recordCategory args (some keptArchive)
      keptWorld).1.toOption.map fun items => (items keptWorld).drain.1.any ofArchive) =
      some false := by decide +kernel
  rw [hfetch] at hgiven hclean
  refine ⟨hpath, hfilters, hsource, keptSource_storable, hlacks, hshown, items, hfetch,
    Option.some.inj hgiven, ?_⟩
  apply hrebuilt _ _ rfl
  intro e he
  have hnone := List.any_eq_false.mp (Option.some.inj hclean) _ he
  exact hnone rfl

end Harvest
