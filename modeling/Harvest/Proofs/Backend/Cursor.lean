/-
  Harvest.Proofs.Backend.Cursor

  The offset of an item as a place to go on from. A fetch that is asked for nothing but another
  offset, that of an item of an earlier fetch, gives what came behind the item, and ends as the
  earlier fetch did (`fetch_behind_item`).
-/
import Harvest.Proofs.Backend.Source
import Harvest.Proofs.Job.Verdict

namespace Harvest

/-! ## Another offset -/

/-- Arguments with another line to start at. -/
def Fields.fromLine (args : Fields) (line : Int) : Fields :=
  args.insert offsetArgument (.ofInt line)

namespace Filters

variable {args : Fields} {line : Int}

theorem requiredPath_fromLine (args : Fields) (line : Int) :
    requiredPath (args.fromLine line) = requiredPath args := by
  unfold requiredPath
  rw [Fields.fromLine, Fields.get?_insert_of_ne _ (by decide)]

/-- Another line is accepted as long as it can be numbered, and takes the place of the first. -/
theorem ofArgs_fromLine {filters : Filters} (h : ofArgs args = .ok filters) (hpos : 0 ≤ line)
    (hfits : line ≤ Number.greatestSigned64) :
    ofArgs (args.fromLine line) = .ok { filters with offset := line } := by
  have hget : (args.fromLine line).get? offsetArgument = some (.number (.integer line)) :=
    Fields.get?_insert_self _ _ _
  have hread : (Json.number (.integer line)).asInt64? = some line :=
    Json.asInt64?_ofInt hpos hfits
  refine ofArgs_eq_ok_iff.mpr ⟨?_, ?_⟩
  · have hdate : dateOf (args.fromLine line) = dateOf args := by
      unfold dateOf
      rw [Fields.fromLine, Fields.get?_insert_of_ne _ (by decide)]
    exact hdate.trans (ofArgs_eq_ok_iff.mp h).1
  · unfold offsetOf
    rw [hget]
    dsimp only
    rw [hread]
    exact if_pos hpos

end Filters

/-! ## The results behind an item -/

/-- Every item among the results of a file is wanted. -/
theorem Lines.not_skipped_of_mem_results {task : Task} {number : Int} {lines : List Bytes}
    {i : Item} (h : .ok i ∈ results task number lines) : task.filters.skipsItem i = false := by
  obtain ⟨before, after, hsplit⟩ := List.append_of_mem h
  obtain ⟨front, line, rest, record, -, -, hrecord, -⟩ := results_split hsplit
  exact (wanted_of_readLine hrecord).2.1

namespace Source

variable {source : Source} {filters : Filters}

/-- The offset of an item is the number of a line behind its own, which has room among the numbers
    of sixty-four bits. -/
theorem offset_of_records {before after : List (Except BackendError Item)} {i : Item}
    (h : source.records filters = before ++ .ok i :: after) :
    ∃ n, i.offset? = some n ∧ 0 ≤ n ∧ n ≤ Number.greatestSigned64 := by
  obtain ⟨front, line, rest, record, hlines, -, hrecord, -⟩ := Lines.results_split h
  obtain ⟨-, -, hshaped⟩ := Lines.wanted_of_readLine hrecord
  have hfits := source.lines_fit
  have hlength := congrArg List.length hlines
  rw [List.length_append, List.length_cons] at hlength
  refine ⟨0 + front.length + 1, ?_, by omega, by omega⟩
  rw [hshaped.offset, Json.asInt64?_ofInt (by omega) (by omega)]

/-- The records from the offset of an item on are those behind it, with the error that ends
    them. -/
theorem records_behind {before after : List (Except BackendError Item)} {i : Item} {n : Int}
    (h : source.records filters = before ++ .ok i :: after) (hn : i.offset? = some n) :
    source.records { filters with offset := n } = after := by
  have hresumed : source.records { filters with offset := n } =
      after.filter ({ filters with offset := n } : Filters).keeps :=
    Lines.results_resumed h hn fun _ hskipped => hskipped
  rw [hresumed, List.filter_eq_self]
  intro r hr
  cases r with
  | error e => rfl
  | ok k =>
    have hmem : .ok k ∈ source.records filters := by
      rw [h]
      exact List.mem_append_right _ (List.mem_cons_of_mem _ hr)
    have hwanted : filters.skipsItem k = false := Lines.not_skipped_of_mem_results hmem
    -- The date from which on items are wanted is the same.
    show (!filters.skipsItem k) = true
    rw [hwanted]
    rfl

end Source

/-! ## Going on behind an item -/

/-- A stream that ends with its first error. -/
inductive Draw.EndsAtError {σ : Type} : Draw σ (Except BackendError Item) → Prop where
  | stop {s : σ} : EndsAtError (.stop s)
  | error {s : σ} (e : BackendError) : EndsAtError (.item (.error e) s Feed.empty)
  | item {s : σ} {i : Item} {rest : σ → Draw σ (Except BackendError Item)}
      (hrest : ∀ s, EndsAtError (rest s)) : EndsAtError (.item (.ok i) s rest)

/-- A stream that gives a list, and nothing behind an error, gives the list when it is drawn to
    its end. -/
theorem Draw.Yields.drain {β κ : Type} {I : Store κ → Prop} {own : κ}
    {d : Draw (Env β) (Except BackendError Item)} {rs : List (Except BackendError Item)}
    (h : d.Yields I false own rs) (hends : d.EndsAtError) : d.drain.1 = rs := by
  induction h with
  | stop h => rfl
  | error h e =>
    cases hends
    rfl
  | cut h harchives e => cases harchives
  | @item env own rest i rs h hrest ih =>
    cases hends with
    | item hends =>
      have hdrained : (rest env).drain.1 = rs := ih env own h (hends env)
      rw [drain_item, hdrained]

namespace Lines

/-- Nothing is read behind an error. -/
theorem advance_error {β : Type} {disk : Disk β} {task : Task} {cursor : Cursor}
    {env env' : Env β} {e : BackendError} {next : Option Cursor}
    (h : advance disk task cursor env = (some (.error e, next), env')) : next = none := by
  unfold advance at h
  split at h
  · cases h
    rfl
  · split at h
    · cases h
    · cases h
      rfl
    · split at h
      · cases h
        rfl
      · cases h

theorem unfold_endsAtError {β : Type} (disk : Disk β) (task : Task) (fuel : Nat)
    (cursor : Cursor) (env : Env β) :
    (Feed.unfold (advance disk task) fuel cursor env).EndsAtError := by
  induction fuel generalizing cursor env with
  | zero => exact .stop
  | succ fuel ih =>
    unfold Feed.unfold
    split
    · exact .stop
    · next r env' hstep =>
      cases r with
      | error e => exact .error e
      | ok i => exact .item fun _ => .stop
    · next r next env' hstep =>
      cases r with
      | error e => cases advance_error hstep
      | ok i => exact .item (ih next)

end Lines

/-- A fetch that gives a stream is accepted. -/
theorem Lines.accepts_of_fetch {β : Type} {category : String} {args : Fields}
    {archive : Option Archive} {env : Env β} {items : Items β}
    (h : fetch category args archive env = .ok items) : Accepts false category args := by
  by_cases haccepts : Accepts false category args
  · exact haccepts
  · obtain ⟨e, -, hrefused⟩ := fetch_of_not_accepts (β := β) haccepts
    cases (hrefused archive env .sound).symm.trans h

/-- Without an archive, a fetch that is accepted is drawn to the end of the source. -/
theorem Source.drain_of_fetch {β : Type} {source : Source} {args : Fields} {filters : Filters}
    {env : Env β} (hpath : requiredPath args = .ok source.path)
    (hfilters : Filters.ofArgs args = .ok filters) (hsource : source.In env.files) :
    ∃ items : Items β, Lines.fetch recordCategory args none env = .ok items ∧
      (items env).drain.1 = source.records filters := by
  let I : Store Unit → Prop := fun s => s.files.content source.place = .ok source.content
  have hstays : Lines.Stays I source.place source.content recordCategory none :=
    ⟨fun _ hs => hs, fun _ ha => nomatch ha⟩
  have hstart : I ⟨env.files, ()⟩ := hsource.content
  obtain ⟨items, hfetch, hyields⟩ :=
    Lines.fetch_yields hpath hfilters hstays hsource.located hstart .sound
  refine ⟨items, hfetch, hyields.drain ?_⟩
  rw [Lines.fetch_of_accepted hpath hfilters hsource.located none .sound] at hfetch
  cases hfetch
  exact Lines.unfold_endsAtError ..

/-- A fetch with nothing archived, and with the offset of an item in the place of the line to
    start at, gives exactly what an earlier fetch of the same file gave behind the item, up to the
    error that ended it, if there was one. -/
theorem fetch_behind_item {β γ : Type} {source : Source} {category : String} {args : Fields}
    {env : Env β} {items : Items β} {before after : List (Except BackendError Item)} {x : Item}
    {later : Env γ} (hsource : source.In env.files) (hpath : requiredPath args = .ok source.path)
    (hfetch : Lines.backend.fetch category args none env = (.ok items, env))
    (hgiven : (items env).drain.1 = before ++ .ok x :: after)
    (hlater : source.In later.files) :
    ∃ n, x.offset? = some n ∧ ∃ again : Items γ,
      Lines.backend.fetch category (args.fromLine n) none later = (.ok again, later) ∧
      (again later).drain.1 = after := by
  have hopened : Lines.fetch category args none env = .ok items := congrArg Prod.fst hfetch
  obtain ⟨rfl, -, filters, hfilters⟩ :=
    Lines.accepts_fetch_iff.mp (Lines.accepts_of_fetch hopened)
  obtain ⟨items', hitems', hdrained⟩ := Source.drain_of_fetch hpath hfilters hsource
  rw [hopened] at hitems'
  cases hitems'
  have hrecords : source.records filters = before ++ .ok x :: after :=
    hdrained.symm.trans hgiven
  obtain ⟨n, hn, hpos, hfits⟩ := Source.offset_of_records hrecords
  -- The other offset is accepted as well, and reads on behind the line of the item.
  have hpath' : requiredPath (args.fromLine n) = .ok source.path :=
    (Filters.requiredPath_fromLine args n).trans hpath
  have hfilters' := Filters.ofArgs_fromLine hfilters hpos hfits
  obtain ⟨again, hagain, hrest⟩ := Source.drain_of_fetch hpath' hfilters' hlater
  refine ⟨n, hn, again, ?_, hrest.trans (Source.records_behind hrecords hn)⟩
  show (Lines.fetch recordCategory (args.fromLine n) none later, later) = _
  rw [hagain]

/-- Three records, with a blank line among them and a line behind them that is none. -/
def gappedRecords : Bytes :=
  Utf8.ofString ("\x7b\"id\":\"a\",\"updated\":200\x7d\n\n" ++
    "\x7b\"id\":\"b\",\"updated\":100\x7d\n" ++
    "\x7b\"id\":\"c\",\"updated\":300\x7d\noops\n")

/-- The file of the records. -/
def gappedSource : Source where
  path := "records.jsonl"
  place := ["records.jsonl"]
  content := gappedRecords
  fits := by decide

/-- The world of the file. -/
def gappedWorld : Env Unit :=
  ⟨⟨[(["records.jsonl"], .file gappedRecords)], []⟩, ⟨fun _ => ⟨0, 0⟩, 0⟩, ()⟩

/-- Behind the first record come the third, the second being dated too early, and the error. -/
theorem fetch_behind_first_record :
    let args : Fields := [(dateArgument, .string "1970-01-01T00:02:30Z"),
      (pathArgument, .string "records.jsonl")]
    gappedSource.In gappedWorld.files ∧ requiredPath args = .ok gappedSource.path ∧
      ∃ (items : Items Unit) (x : Item) (after : List (Except BackendError Item)),
        Lines.backend.fetch recordCategory args none gappedWorld = (.ok items, gappedWorld) ∧
        (items gappedWorld).drain.1 = .ok x :: after ∧ after.map Except.isOk = [true, false] ∧
        ∃ n, x.offset? = some n ∧ ∃ again : Items Unit,
          Lines.backend.fetch recordCategory (args.fromLine n) none gappedWorld =
            (.ok again, gappedWorld) ∧
          (again gappedWorld).drain.1 = after := by
  intro args
  have hsource : gappedSource.In gappedWorld.files := ⟨rfl, rfl⟩
  have hpath : requiredPath args = .ok gappedSource.path := rfl
  have hgiven : ((Lines.fetch recordCategory args none gappedWorld).toOption.map
      fun items => (items gappedWorld).drain.1.map Except.isOk) =
      some [true, true, false] := by decide +kernel
  cases hopened : Lines.fetch recordCategory args none gappedWorld with
  | error e =>
    rw [hopened] at hgiven
    cases hgiven
  | ok items =>
    rw [hopened] at hgiven
    have hfetch : Lines.backend.fetch recordCategory args none gappedWorld =
        (.ok items, gappedWorld) := congrArg (fun opened => (opened, gappedWorld)) hopened
    have hshape : (items gappedWorld).drain.1.map Except.isOk = [true, true, false] :=
      Option.some.inj hgiven
    obtain ⟨first, after, hdrained, hfirst, hafter⟩ := List.map_eq_cons_iff.mp hshape
    cases first with
    | error e => cases hfirst
    | ok x =>
      have hgiven : (items gappedWorld).drain.1 = [] ++ .ok x :: after := hdrained
      exact ⟨hsource, hpath, items, x, after, hfetch, hdrained, hafter,
        fetch_behind_item hsource hpath hfetch hgiven hsource⟩

end Harvest
