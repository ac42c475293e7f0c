/-
  Harvest.Proofs.Backend.Rereading

  Reading back what a fetch has archived. A fetch takes records of 127 levels, but what it archives
  of a record nests two levels deeper, and is read with the limit that the record was read with. So
  the archive can be read back just as far as the records nest no more than 125 levels: the first
  one that nests deeper ends the stream of the responses with an error, although its item was given
  (`archived_read_to_depth`).
-/
import Harvest.Proofs.Archive.Nesting
import Harvest.Proofs.Backend.Rebuild
import Harvest.Proofs.Json.Sorted

namespace Harvest

/-! ## Responses as records -/

namespace Response

open Json

/-- Read as any other value, a response has no identifier: it is not among its fields. -/
theorem get?_id_of_ofChars {r : Response} (h : r.Readable) {v : Json}
    (hv : ofChars r.toJson.chars = .ok v) : v.get? "id" = none := by
  have hstring : ∀ s, (Json.string s).Readable := by
    intro s
    apply (Parsed.string s).readable
    intro x hx
    cases hx
  have hback : ∀ e ∈ Archive.fieldsOf r, e.2.Readable := by
    intro e he
    simp only [Archive.fieldsOf, List.mem_cons, List.not_mem_nil, or_false] at he
    rcases he with rfl | rfl | rfl | rfl
    · exact hstring r.category
    · exact hstring r.origin
    · exact hstring r.archivedAt.text
    · exact h.payload
  have hnames : ((rereadFields (Archive.fieldsOf r)).map Prod.fst).Nodup := by
    show ["category", "origin", "archived_at", "payload"].Nodup
    decide
  have hid : "id" ∉ (rereadFields (Archive.fieldsOf r)).map Prod.fst := by
    show "id" ∉ ["category", "origin", "archived_at", "payload"]
    decide
  rw [ofChars_fields hback hv]
  show Fields.get? (Fields.insertAll [] _) "id" = none
  rw [Fields.get?_insertAll hnames, Fields.get?_eq_none_of_notMem hid]
  rfl

/-- The text of the line of a response. -/
theorem decode_chomp_line (r : Response) :
    Utf8.decode (chomp r.line) = .ok r.toJson.chars := by
  have hchomp : chomp r.line = Utf8.encode r.toJson.chars := by
    have hended : isEnded r.line = true := isEnded_concat _
    have hbody : r.line.dropLast = Utf8.encode r.toJson.chars := List.dropLast_concat
    -- The last byte of the body is the closing brace of the response.
    have hbrace : (Utf8.encode r.toJson.chars).getLast? ≠ some carriageReturn := by
      have hchars : r.toJson.chars = ('\x7b' :: fieldChars (Archive.fieldsOf r)) ++ ['\x7d'] := rfl
      rw [hchars, Utf8.encode_append]
      have hlast : Utf8.encode ['\x7d'] = [125] := by decide
      rw [hlast, List.getLast?_concat]
      decide
    unfold chomp
    dsimp only
    rw [if_pos hended, hbody, if_neg hbrace]
  rw [hchomp, Utf8.decode_encode]

end Response

namespace Lines

/-- The line of a response does not hold a record. -/
theorem readLine_response_ne {r : Response} (h : r.Readable) (task : Task) (number : Int)
    (item : Item) (record : Json) : readLine task number r.line ≠ .record item record := by
  intro hline
  obtain ⟨⟨cs, hcs, hrecord⟩, hitem, -⟩ := readLine_eq_record hline
  rw [r.decode_chomp_line] at hcs
  cases hcs
  have hid : Record.id? record = none := by
    unfold Record.id?
    rw [Response.get?_id_of_ofChars h hrecord]
  unfold Record.toItem at hitem
  rw [hid] at hitem
  cases hitem

end Lines

/-! ## What a fetch archives -/

/-- What a fetch looks for in a source if what it finds is archived. -/
def Source.archivingTask (source : Source) (filters : Filters) (a : Archive) : Lines.Task :=
  ⟨source.path, recordCategory, filters, some a⟩

/-- The floating-point numbers in the records of a source can be read from their texts. -/
def Source.NumbersRead (source : Source) : Prop :=
  ∀ line ∈ linesOf source.content, ∀ cs record, Utf8.decode (chomp line) = .ok cs →
    Json.ofChars cs = .ok record →
      ∀ x, Json.Within (.number (.real x)) record → (Number.real x).IsRead

/-- The response that is stored of a record can be read from its line, unless it nests too
    deep. -/
theorem Entry.readable {β : Type} {e : Entry} {source : Source} {task : Lines.Task}
    {C : Env β → Prop} (h : e.For task (task.FindsIn source) C) (hnumbers : source.NumbersRead)
    (hshown : ∀ env, C env → ∀ n, (env.clock.shown n).Shows) : e.response.Readable := by
  obtain ⟨bytes, hbytes, hpos, hfits, hread⟩ := h.record
  obtain ⟨env, henv, hresponse⟩ := h.response
  obtain ⟨⟨cs, hcs, hrecord⟩, -⟩ := Lines.readLine_eq_record hread
  have hreal := hnumbers bytes (List.mem_of_getElem? hbytes) cs e.record hcs hrecord
  rw [hresponse]
  constructor
  · exact hshown env henv env.clock.readings
  · have hparsed := Record.parsed_payload hpos (Int.le_of_lt hfits) (Json.parsed_ofChars hrecord)
    exact hparsed.readable fun x hx => hreal x (Record.real_of_payload hx)

/-- The payload that is stored of a record nests one level deeper. It is one level down in the
    response. -/
theorem Entry.depth_response {β : Type} {e : Entry} {task : Lines.Task}
    {P : Int → Json → Item → Prop} {C : Env β → Prop} (h : e.For task P C) :
    e.response.payload.depth = e.record.depth + 1 := by
  obtain ⟨env, -, hresponse⟩ := h.response
  rw [hresponse]
  exact Record.depth_payload e.line e.record

theorem Entry.For.imp {β : Type} {e : Entry} {task : Lines.Task} {P : Int → Json → Item → Prop}
    {C D : Env β → Prop} (h : e.For task P C) (hD : ∀ env, C env → D env) : e.For task P D := by
  obtain ⟨env, henv, hresponse⟩ := h.response
  exact ⟨h.record, env, hD env henv, hresponse⟩

/-- A stream that finds nothing gives no items and stores nothing. -/
theorem Draw.Stores.drain_of_nothing {β : Type} {disk : Disk β} {task : Lines.Task} {a : Archive}
    {C : Env β → Prop} {number : Int} {env : Env β}
    {d : Draw (Env β) (Except BackendError Item)}
    (h : d.Stores disk task a (fun _ _ _ => False) C number env) :
    d.drain.1.filterMap Except.toOption = [] ∧ d.drain.2 = env := by
  cases h with
  | stop => exact ⟨rfl, rfl⟩
  | error e => exact ⟨rfl, rfl⟩
  | unstored hnumber hrecord h => exact hrecord.elim
  | stored hnumber hrecord h hrest => exact hrecord.elim

namespace Lines

variable {β : Type} {source : Source} {args : Fields} {filters : Filters} {a : Archive}
  {log : List Response} {env : Env β} {items : Items β}

/-- A file of responses that is taken for a source gives no items, and nothing is stored. -/
theorem fetch_own_archive {category : String} (hsource : source.In env.files)
    (hcontent : source.content = log.flatMap Response.line) (hlog : ∀ r ∈ log, r.Readable)
    (hpath : requiredPath args = .ok source.path)
    (h : fetch category args (some a) env = .ok items) :
    (items env).drain.1.filterMap Except.toOption = [] ∧ (items env).drain.2 = env := by
  obtain ⟨origin, f, place, horigin, -, hplace, rfl⟩ := fetch_eq_ok h
  rw [hpath] at horigin
  cases horigin
  rw [hsource.located] at hplace
  cases hplace
  refine Draw.Stores.drain_of_nothing (unfold_stores (G := fun cursor => cursor.On source)
    (C := fun env => env.files.content source.place = .ok source.content) rfl ?_ _
    ⟨⟨source.place, 0⟩, 0⟩ (Cursor.on_start source) env hsource.content)
  intro cursor env lines hit hcursor henv hlines hnext
  -- What is found is on one of the lines, which are all those of responses.
  obtain ⟨⟨bytes, hbytes, -, -, hrecord⟩, -⟩ := hcursor.hit henv hlines hnext
  have hmem := List.mem_of_getElem? hbytes
  rw [hcontent, Archive.linesOf_responses] at hmem
  obtain ⟨r, hr, rfl⟩ := List.mem_map.mp hmem
  exact absurd hrecord (readLine_response_ne (hlog r hr) _ _ _ _)

/-- The items of a fetch are those of records of the source, and the archive gains the responses
    that are stored of them. It may be that the source is the file of the archive. -/
theorem fetch_gains (hpath : requiredPath args = .ok source.path)
    (hfilters : Filters.ofArgs args = .ok filters) (hsource : source.In env.files)
    (hholds : a.Holds recordCategory env.files (log.flatMap Response.line))
    (hlog : ∀ r ∈ log, r.Readable)
    (h : fetch recordCategory args (some a) env = .ok items) :
    ∃ entries : List Entry,
      (∀ e ∈ entries, e.For (source.archivingTask filters a)
        ((source.archivingTask filters a).FindsIn source)
        (fun later : Env β => later.clock.shown = env.clock.shown)) ∧
      (items env).drain.1.filterMap Except.toOption = entries.map Entry.item ∧
      a.Holds recordCategory (items env).drain.2.files
        ((log ++ entries.map Entry.response).flatMap Response.line) := by
  -- If the source is the file of the archive, it holds just what the archive does.
  have hcases : a.Apart recordCategory env.files source.place ∨
      source.content = log.flatMap Response.line := by
    generalize log.flatMap Response.line = bytes at hholds
    cases hholds with
    | none hlacks => exact .inl (.inl hlacks)
    | file hfound =>
      obtain ⟨l, hl, hcontent⟩ := Archive.locate_of_found hfound
      by_cases hplace : l = source.place
      · subst hplace
        rw [hsource.content] at hcontent
        exact .inr (Except.ok.inj hcontent)
      · exact .inl (.inr ⟨l, hplace, hl⟩)
  rcases hcases with hapart | hcontent
  · have hstays : source.Stays a recordCategory env.clock.shown env :=
      ⟨hapart, hsource.content, rfl⟩
    have hstores := fetch_stores_source hpath hfilters hsource
      (fun e (he : source.Stays a recordCategory env.clock.shown e) => he.content) h hstays
    obtain ⟨entries, hentries, hitems, hgains⟩ :=
      hstores.drain (fun _ _ _ _ _ he h => he.store h) hstays
    refine ⟨entries, ?_, hitems, ?_⟩
    · intro e he
      exact (hentries e he).imp fun later hlater => hlater.shown
    · rw [List.flatMap_append]
      exact hgains _ hholds
  · obtain ⟨hitems, hfiles⟩ := fetch_own_archive hsource hcontent hlog hpath h
    refine ⟨[], List.forall_mem_nil _, hitems, ?_⟩
    rw [hfiles, List.map_nil, List.append_nil]
    exact hholds

end Lines

/-- What a fetch has given is archived, and its responses are read back, behind those that were
    there, just as far as they do not nest too deep: with the first record of more than 125 levels
    the stream of the responses ends with an error, whatever is behind. The record itself may have
    two levels more to be accepted. -/
theorem archived_read_to_depth {β γ : Type} {source : Source} {args : Fields}
    {filters : Filters} {a : Archive} {log : List Response} {env : Env β}
    (hpath : requiredPath args = .ok source.path)
    (hfilters : Filters.ofArgs args = .ok filters) (hsource : source.In env.files)
    (hnumbers : source.NumbersRead)
    (hholds : a.Holds recordCategory env.files (log.flatMap Response.line))
    (hlog : ∀ r ∈ log, r.Readable) (hshown : ∀ n, (env.clock.shown n).Shows) :
    ∃ items : Items β, Lines.backend.fetch recordCategory args (some a) env = (.ok items, env) ∧
      ∀ fetched after, (items env).drain = (fetched, after) →
        ∃ entries : List Entry,
          fetched.filterMap Except.toOption = entries.map Entry.item ∧
          (∀ e ∈ entries, e.For (source.archivingTask filters a)
            ((source.archivingTask filters a).FindsIn source)
            (fun env' : Env β => env'.clock.shown = env.clock.shown)) ∧
          ∀ later : Env γ,
            a.found recordCategory later.files = a.found recordCategory after.files →
            ∀ since, ∃ (feed : Feed (Env γ) (Except ArchiveError Response))
                (replies : List (Except ArchiveError Response)),
              a.responses recordCategory since later.files = .ok feed ∧
              (feed later).drain = (replies, later) ∧
              Archive.Replies since (log ++ entries.map Entry.response) replies ∧
              ((∃ e, .error e ∈ replies) ↔
                (∃ r ∈ log, 126 < r.payload.depth) ∨ ∃ e ∈ entries, 125 < e.record.depth) := by
  have hfetch := Lines.fetch_of_accepted hpath hfilters hsource.located (some a) .sound
  generalize Feed.unfold _ _ _ = items at hfetch
  refine ⟨items, ?_, ?_⟩
  · show (Lines.fetch recordCategory args (some a) env, env) = _
    rw [hfetch]
  intro fetched after hdrained
  have hgains := Lines.fetch_gains hpath hfilters hsource hholds hlog hfetch
  rw [hdrained] at hgains
  obtain ⟨entries, hentries, hitems, hend⟩ := hgains
  refine ⟨entries, hitems, hentries, ?_⟩
  intro later hsame since
  have hreadable : ∀ r ∈ log ++ entries.map Entry.response, r.Readable := by
    intro r hr
    rcases List.mem_append.mp hr with hr | hr
    · exact hlog r hr
    · obtain ⟨e, he, rfl⟩ := List.mem_map.mp hr
      refine Entry.readable (hentries e he) hnumbers ?_
      intro env' henv' n
      rw [henv']
      exact hshown n
  obtain ⟨feed, hfeed, hdrain⟩ := Archive.responses_of_lines hend hsame since
  have hreplies := Archive.readLines_replies hreadable since
  refine ⟨feed, _, hfeed, hdrain, hreplies, ?_⟩
  -- The limit of a response is, for its payload, one level less, and for the record in that two.
  have hdeep : ∀ e ∈ entries, (126 < e.response.payload.depth ↔ 125 < e.record.depth) := by
    intro e he
    have hdepth := Entry.depth_response (hentries e he)
    omega
  rw [hreplies.error_iff]
  constructor
  · rintro ⟨r, hr, hdepth⟩
    rcases List.mem_append.mp hr with hr | hr
    · exact .inl ⟨r, hr, hdepth⟩
    · obtain ⟨e, he, rfl⟩ := List.mem_map.mp hr
      exact .inr ⟨e, he, (hdeep e he).mp hdepth⟩
  · rintro (⟨r, hr, hdepth⟩ | ⟨e, he, hdepth⟩)
    · exact ⟨r, List.mem_append_left _ hr, hdepth⟩
    · exact ⟨e.response, List.mem_append_right _ (List.mem_map_of_mem he), (hdeep e he).mpr hdepth⟩

/-- Arrays one in the other. -/
def nested : Nat → Json
  | 0 => .array []
  | n + 1 => .array [nested n]

theorem parsed_nested (n : Nat) : (nested n).Parsed := by
  induction n with
  | zero => exact .array (List.forall_mem_nil _)
  | succ n ih => exact .array (List.forall_mem_singleton.mpr ih)

theorem not_number_nested (m : Number) (n : Nat) : ¬ Json.Within (.number m) (nested n) := by
  intro hm
  induction n with
  | zero =>
    cases hm with
    | item hv hm => cases hv
  | succ n ih =>
    cases hm with
    | item hv hm =>
      rw [List.mem_singleton.mp hv] at hm
      exact ih hm

/-- A record of 126 levels. -/
def deepRecord : Json := .object [("id", .string "a"), ("updated", .ofInt 200), ("x", nested 124)]

/-- A file of the record. -/
def deepSource : Source where
  path := "records.jsonl"
  place := ["records.jsonl"]
  content := Utf8.encode (deepRecord.chars ++ ['\n'])
  fits := by decide +kernel

/-- The world of the file, with no archive in it. -/
def deepWorld : Env Unit :=
  ⟨⟨[(["records.jsonl"], .file deepSource.content)], []⟩, ⟨fun _ => ⟨0, 0⟩, 0⟩, ()⟩

theorem not_real_deepRecord (x : Float) : ¬ Json.Within (.number (.real x)) deepRecord := by
  intro hx
  unfold deepRecord at hx
  cases hx with
  | field hv hx =>
    simp only [List.mem_cons, List.not_mem_nil, or_false, Prod.mk.injEq] at hv
    rcases hv with ⟨-, rfl⟩ | ⟨-, rfl⟩ | ⟨-, rfl⟩
    · cases hx
    · cases hx
    · exact not_number_nested _ 124 hx

theorem deepRecord_readsBack : deepRecord.ReadsBack := by
  have hparsed : deepRecord.Parsed := by
    apply Json.Parsed.object
    · have hnames : ["id", "updated", "x"].Pairwise (· < ·) := by decide
      exact List.pairwise_map.mp hnames
    · intro e he
      simp only [List.mem_cons, List.not_mem_nil, or_false] at he
      rcases he with rfl | rfl | rfl
      · exact .string "a"
      · apply Json.Parsed.number
        intro n hn
        cases hn
        exact ⟨by decide, by decide⟩
      · exact parsed_nested 124
  exact hparsed.readsBack fun x hx => absurd hx (not_real_deepRecord x)

/-- There is nothing but the record in the file. -/
theorem eq_deepRecord {line : Bytes} {cs : List Char} {record : Json}
    (hline : line ∈ linesOf deepSource.content) (hcs : Utf8.decode (chomp line) = .ok cs)
    (hrecord : Json.ofChars cs = .ok record) : record = deepRecord := by
  have hlines : linesOf deepSource.content = [Utf8.encode (deepRecord.chars ++ ['\n'])] := by
    decide +kernel
  have hchomp : chomp (Utf8.encode (deepRecord.chars ++ ['\n'])) =
      Utf8.encode deepRecord.chars := by decide +kernel
  have hread := Json.ofChars_chars (by decide +kernel) deepRecord_readsBack
  rw [hlines, List.mem_singleton] at hline
  rw [hline, hchomp, Utf8.decode_encode] at hcs
  cases hcs
  rw [hread] at hrecord
  exact (Except.ok.inj hrecord).symm

/-- The item of the record is given, but its response cannot be read back. -/
theorem deep_record_not_read_back :
    let args : Fields := [(pathArgument, .string "records.jsonl")]
    requiredPath args = .ok deepSource.path ∧ Filters.ofArgs args = .ok ⟨none, 0⟩ ∧
      deepSource.In deepWorld.files ∧ deepSource.NumbersRead ∧
      keptArchive.Holds recordCategory deepWorld.files ([].flatMap Response.line) ∧
      (∀ r ∈ ([] : List Response), r.Readable) ∧ (∀ n, (deepWorld.clock.shown n).Shows) ∧
      ∃ items : Items Unit,
        Lines.backend.fetch recordCategory args (some keptArchive) deepWorld =
          (.ok items, deepWorld) ∧
        (items deepWorld).drain.1.map Except.isOk = [true] ∧
        ∀ later : Env Unit, keptArchive.found recordCategory later.files =
            keptArchive.found recordCategory (items deepWorld).drain.2.files →
          ∃ (feed : Feed (Env Unit) (Except ArchiveError Response)) (refusal : Json.Refusal),
            keptArchive.responses recordCategory none later.files = .ok feed ∧
            refusal.cause = .tooDeep ∧
            (feed later).drain = ([.error (.serialization refusal.message)], later) := by
  intro args
  have hpath : requiredPath args = .ok deepSource.path := rfl
  have hfilters : Filters.ofArgs args = .ok ⟨none, 0⟩ := rfl
  have hsource : deepSource.In deepWorld.files := ⟨rfl, rfl⟩
  have hnumbers : deepSource.NumbersRead := by
    intro line hline cs record hcs hrecord x hx
    rw [eq_deepRecord hline hcs hrecord] at hx
    exact absurd hx (not_real_deepRecord x)
  have hholds : keptArchive.Holds recordCategory deepWorld.files ([].flatMap Response.line) :=
    .none (Archive.lacks_of_prepared rfl rfl rfl)
  have hlog : ∀ r ∈ ([] : List Response), r.Readable := List.forall_mem_nil _
  have hshown : ∀ n, (deepWorld.clock.shown n).Shows := by
    intro n
    show (⟨0, 0⟩ : Calendar.Instant).Shows
    exact ⟨by decide, by decide⟩
  obtain ⟨items, hfetch, hread⟩ := archived_read_to_depth (γ := Unit) hpath hfilters hsource
    hnumbers hholds hlog hshown
  have hgiven : ((Lines.backend.fetch recordCategory args (some keptArchive)
      deepWorld).1.toOption.map fun items => (items deepWorld).drain.1.map Except.isOk) =
      some [true] := by decide +kernel
  rw [hfetch] at hgiven
  have hone : (items deepWorld).drain.1.map Except.isOk = [true] := Option.some.inj hgiven
  refine ⟨hpath, hfilters, hsource, hnumbers, hholds, hlog, hshown, items, hfetch, hone, ?_⟩
  intro later hsame
  obtain ⟨entries, hitems, hentries, hlater⟩ := hread _ _ rfl
  -- The item is that of the one entry, whose record is the one in the file.
  obtain ⟨e, rfl⟩ : ∃ e, entries = [e] := by
    obtain ⟨given, hgiven', hok⟩ := List.map_eq_singleton_iff.mp hone
    cases given with
    | error fault => cases hok
    | ok item =>
      rw [hgiven'] at hitems
      have hlength := congrArg List.length hitems
      rw [List.length_map] at hlength
      exact List.length_eq_one_iff.mp hlength.symm
  have he := hentries e List.mem_cons_self
  have hrecord : e.record = deepRecord := by
    obtain ⟨bytes, hbytes, -, -, hline⟩ := he.record
    obtain ⟨⟨cs, hcs, hrecord⟩, -⟩ := Lines.readLine_eq_record hline
    exact eq_deepRecord (List.mem_of_getElem? hbytes) hcs hrecord
  have hdeep : 126 < e.response.payload.depth := by
    rw [Entry.depth_response he, hrecord]
    decide +kernel
  obtain ⟨feed, replies, hfeed, hdrain, hreplies, -⟩ := hlater later hsame none
  -- Of the ways in which the one response may be replied to only the last one is left.
  cases hreplies with
  | response hdepth hlater hrest => omega
  | earlier hdepth hlater hrest => omega
  | @tooDeep r rs refusal hdepth hcause => exact ⟨feed, refusal, hfeed, hcause, hdrain⟩

end Harvest
