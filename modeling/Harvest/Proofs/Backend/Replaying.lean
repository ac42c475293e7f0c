/-
  Harvest.Proofs.Backend.Replaying

  What a replay gives. A recording is the file of an archive that can be read to its end, and in
  which every response has a record that makes an item. A replay gives those of its items that are
  of the origin that is asked for, and that the filters ask for, in the order in which they were
  stored (`replay_yields`).
-/
import Harvest.Proofs.Archive.Reading
import Harvest.Proofs.Backend.ResumePoint

namespace Harvest

/-! ## The item of a response -/

/-- The item of the record of a response. -/
def Response.item? (r : Response) : Option Item :=
  match r.payload.get? "line" >>= Json.asInt64? with
  | none => none
  | some line =>
    (Record.toItem r.origin r.category line (Number.wrapSigned64 (line + 1))
      ((r.payload.get? "record").getD .null)).toOption

/-- Whether a response is of the origin that is asked for, if any is. -/
def Response.isOf (origin : Option String) (r : Response) : Bool := !origin.any (· ≠ r.origin)

/-- The record of a response is on a line that can be numbered, and makes an item that a job can
    pass on. -/
structure Response.Makes (r : Response) (item : Item) : Prop where
  line : ∃ line, (r.payload.get? "line" >>= Json.asInt64?) = some line ∧ 0 ≤ line ∧
    line < Number.greatestSigned64 ∧
    Record.toItem r.origin r.category line (line + 1) ((r.payload.get? "record").getD .null) =
      .ok item
  marks : ∃ m, item.marks = .ok m

/-- Whether filters ask for the item of a line: the line is none of those in front of the one to
    start at, and the item is not dated too early. -/
def Filters.asks (f : Filters) (i : Item) : Bool :=
  !f.skipsItem i && i.offset?.any fun next => f.offset < next

theorem Filters.asks_eq_true_iff {f : Filters} {i : Item} {n : Int} (h : i.offset? = some n) :
    f.asks i = true ↔ f.skipsItem i = false ∧ f.offset < n := by
  simp [asks, h]

/-- There is a number behind that of a line that is not the last one. -/
theorem Number.wrapSigned64_next {line : Int} (hpos : 0 ≤ line) (hfits : line < greatestSigned64) :
    wrapSigned64 (line + 1) = line + 1 :=
  wrapSigned64_of_mem (Int.le_trans (by decide) (Int.le_add_one hpos)) hfits

namespace Response.Makes

variable {r : Response} {item : Item}

theorem item?_eq (h : r.Makes item) : r.item? = some item := by
  obtain ⟨line, hline, hpos, hfits, hitem⟩ := h.line
  unfold item?
  rw [hline]
  dsimp only
  rw [Number.wrapSigned64_next hpos hfits, hitem]
  rfl

/-- The offset of the item is the number of the line behind that of the record. -/
theorem offset (h : r.Makes item) :
    ∃ line, (r.payload.get? "line" >>= Json.asInt64?) = some line ∧ 0 ≤ line ∧
      item.offset? = some (line + 1) := by
  obtain ⟨line, hline, hpos, hfits, hitem⟩ := h.line
  refine ⟨line, hline, hpos, ?_⟩
  rw [(Record.shaped_of_toItem hitem).offset]
  exact Json.asInt64?_ofInt (by omega) (by omega)

/-- A replay gives the item of a response if it is of the origin that is asked for, and if the
    filters ask for the item. -/
theorem replayed (h : r.Makes item) (origin : Option String) (filters : Filters) :
    Lines.replayed origin filters (.ok r) =
      if r.isOf origin && filters.asks item then some (.ok item) else none := by
  obtain ⟨line, hline, hpos, hfits, hitem⟩ := h.line
  obtain ⟨line', hline', -, hoffset⟩ := h.offset
  rw [hline] at hline'
  cases hline'
  have hasks := Filters.asks_eq_true_iff (f := filters) hoffset
  unfold Lines.replayed isOf
  dsimp only
  cases horigin : origin.any (· ≠ r.origin) with
  | true => rfl
  | false =>
    rw [if_neg Bool.false_ne_true, hline, Bool.not_false, Bool.true_and]
    dsimp only
    rw [Number.wrapSigned64_next hpos hfits]
    by_cases hskips : line < filters.offset
    · have hno : ¬ filters.asks item = true := by
        rw [hasks]
        omega
      rw [if_pos (Filters.skipsLine_eq_true_iff.mpr hskips), if_neg hno]
    · rw [if_neg (by simpa using hskips), hitem]
      dsimp only
      cases hearly : filters.skipsItem item with
      | true =>
        have hno : ¬ filters.asks item = true := by
          rw [hasks, hearly]
          simp
        rw [if_pos rfl, if_neg hno]
      | false =>
        have hyes : filters.asks item = true := hasks.mpr ⟨hearly, by omega⟩
        rw [if_neg Bool.false_ne_true, if_pos hyes]

end Response.Makes

/-- Whether a response makes an item, as it can be computed. -/
def Response.makesItem (r : Response) : Bool :=
  (r.payload.get? "line" >>= Json.asInt64?).any
      (fun line => 0 ≤ line && line < Number.greatestSigned64) &&
    r.item?.any fun item => item.marks.toBool

theorem Response.exists_makes {r : Response} (h : r.makesItem = true) : ∃ item, r.Makes item := by
  unfold makesItem at h
  rw [Bool.and_eq_true, Option.any_eq_true, Option.any_eq_true] at h
  obtain ⟨⟨line, hline, hbounds⟩, item, hitem, hmarked⟩ := h
  simp only [Bool.and_eq_true, decide_eq_true_eq] at hbounds
  obtain ⟨hpos, hfits⟩ := hbounds
  unfold item? at hitem
  rw [hline] at hitem
  dsimp only at hitem
  rw [Number.wrapSigned64_next hpos hfits] at hitem
  cases hmade : Record.toItem r.origin r.category line (line + 1)
    ((r.payload.get? "record").getD .null) with
  | error e => simp [hmade, Except.toOption] at hitem
  | ok made =>
    simp only [hmade, Except.toOption, Option.some.injEq] at hitem
    subst hitem
    refine ⟨made, ⟨line, hline, hpos, hfits, hmade⟩, ?_⟩
    cases hm : made.marks with
    | error e =>
      rw [hm] at hmarked
      cases hmarked
    | ok m => exact ⟨m, rfl⟩

/-! ## Recordings -/

/-- The file of an archive, every line of which was stored to its end, with a record that makes an
    item. It may hold records of several origins, in any order, and some of them several times. -/
structure Recording where
  path : String
  place : Location
  content : Bytes
  responses : List Response
  reads : Archive.readLines none (linesOf content) = responses.map .ok
  makes : ∀ r ∈ responses, ∃ item, r.Makes item

namespace Recording

/-- Whether the content of a file is that of a recording, as it can be computed. -/
def isContent (content : Bytes) : Bool :=
  (Archive.readLines none (linesOf content)).all fun
    | .error _ => false
    | .ok r => r.makesItem

/-- The recording with a content. -/
def ofContent (path : String) (place : Location) (content : Bytes)
    (h : isContent content = true) : Recording where
  path := path
  place := place
  content := content
  responses := (Archive.readLines none (linesOf content)).filterMap Except.toOption
  reads := by
    unfold isContent at h
    generalize Archive.readLines none (linesOf content) = read at h
    induction read with
    | nil => rfl
    | cons first rest ih =>
      rw [List.all_cons, Bool.and_eq_true] at h
      cases first with
      | error e => cases h.1
      | ok r => exact congrArg (Except.ok r :: ·) (ih h.2)
  makes := by
    intro r hr
    obtain ⟨first, hfirst, hok⟩ := List.mem_filterMap.mp hr
    have hmakes := List.all_eq_true.mp h first hfirst
    cases first with
    | error e => cases hok
    | ok r' =>
      cases hok
      exact Response.exists_makes hmakes

variable {recording : Recording} {origin : Option String} {after : Option Calendar.Instant}

/-- The archive of a recording. -/
def archive (recording : Recording) : Archive := ⟨⟨recording.path⟩⟩

/-- The archive holds the recording. -/
structure In (recording : Recording) (files : FileTree) : Prop where
  located : files.locate (recording.archive.categoryPath recordCategory) = .ok recording.place
  content : files.content recording.place = .ok recording.content

/-- The items of a recording, of one origin if it is asked for, that were stored later than an
    instant. -/
def items (recording : Recording) (origin : Option String) (after : Option Calendar.Instant) :
    List Item :=
  ((recording.responses.filter (Archive.isLater after)).filter (Response.isOf origin)).filterMap
    Response.item?

/-- The items that a replay with filters asks for. -/
def asked (recording : Recording) (origin : Option String) (after : Option Calendar.Instant)
    (filters : Filters) : List Item :=
  (recording.items origin after).filter filters.asks

theorem makes_of_mem_items {i : Item} (h : i ∈ recording.items origin after) :
    ∃ r : Response, r.Makes i := by
  obtain ⟨r, hr, hi⟩ := List.mem_filterMap.mp h
  have hstored := (List.mem_filter.mp (List.mem_filter.mp hr).1).1
  obtain ⟨item, hmakes⟩ := recording.makes r hstored
  rw [hmakes.item?_eq] at hi
  cases hi
  exact ⟨r, hmakes⟩

theorem marks_of_mem_items {i : Item} (h : i ∈ recording.items origin after) :
    ∃ m, i.marks = .ok m := by
  obtain ⟨r, hmakes⟩ := makes_of_mem_items h
  exact hmakes.marks

theorem offset_of_mem_items {i : Item} (h : i ∈ recording.items origin after) :
    ∃ n, i.offset? = some n ∧ 0 < n := by
  obtain ⟨r, hmakes⟩ := makes_of_mem_items h
  obtain ⟨line, -, hpos, hoffset⟩ := hmakes.offset
  exact ⟨line + 1, hoffset, by omega⟩

/-- A job can pass on all items of a recording. -/
theorem goods_of_asked (recording : Recording) (origin : Option String)
    (after : Option Calendar.Instant) (filters : Filters) :
    goods ((recording.asked origin after filters).map .ok) =
        recording.asked origin after filters ∧
      ending ((recording.asked origin after filters).map .ok) = .ok () := by
  have hmarks : ∀ i ∈ recording.asked origin after filters, ∃ m, i.marks = .ok m :=
    fun i hi => marks_of_mem_items (List.mem_filter.mp hi).1
  generalize recording.asked origin after filters = items at hmarks
  induction items with
  | nil => exact ⟨rfl, rfl⟩
  | cons i items ih =>
    obtain ⟨m, hm⟩ := hmarks i List.mem_cons_self
    obtain ⟨hgoods, hending⟩ := ih fun k hk => hmarks k (List.mem_cons_of_mem _ hk)
    rw [List.map_cons, goods_of_marks hm, ending_of_marks hm, hgoods, hending]
    exact ⟨rfl, rfl⟩

/-- Replaying the responses of a recording gives the items that are asked for. -/
theorem replayed_responses (recording : Recording) (origin : Option String)
    (after : Option Calendar.Instant) (filters : Filters) :
    ((recording.responses.filter (Archive.isLater after)).map .ok).filterMap
        (Lines.replayed origin filters) = (recording.asked origin after filters).map .ok := by
  unfold asked items
  have hmakes : ∀ r ∈ recording.responses.filter (Archive.isLater after), ∃ item, r.Makes item :=
    fun r hr => recording.makes r (List.mem_filter.mp hr).1
  generalize recording.responses.filter (Archive.isLater after) = rs at hmakes
  induction rs with
  | nil => rfl
  | cons r rs ih =>
    have hrest := ih fun s hs => hmakes s (List.mem_cons_of_mem _ hs)
    obtain ⟨item, hitem⟩ := hmakes r List.mem_cons_self
    have hreplayed := hitem.replayed origin filters
    rw [List.map_cons, List.filter_cons]
    cases hof : r.isOf origin with
    | false =>
      rw [hof] at hreplayed
      rw [List.filterMap_cons_none hreplayed, if_neg Bool.false_ne_true]
      exact hrest
    | true =>
      rw [hof, Bool.true_and] at hreplayed
      rw [if_pos rfl, List.filterMap_cons_some hitem.item?_eq, List.filter_cons]
      cases hasks : filters.asks item with
      | false =>
        rw [hasks] at hreplayed
        rw [List.filterMap_cons_none hreplayed, if_neg Bool.false_ne_true]
        exact hrest
      | true =>
        rw [hasks] at hreplayed
        rw [List.filterMap_cons_some hreplayed, if_pos rfl, List.map_cons, hrest]

end Recording

/-! ## A replay -/

/-- What a stream only looks at, it gives. -/
theorem Draw.Reads.yields {β κ : Type} {C : Env β → Prop} {I : Store κ → Prop}
    (hI : ∀ env own, I ⟨env.files, own⟩ → C env) {env : Env β}
    {d : Draw (Env β) (Except BackendError Item)} {items : List Item}
    (h : d.Reads C env (items.map .ok)) {own : κ} (hstart : I ⟨env.files, own⟩) :
    d.Yields I false own (items.map .ok) := by
  generalize hrs : items.map Except.ok = rs at h ⊢
  induction h generalizing items own with
  | stop => exact .stop hstart
  | @item env r rest rs h ih =>
    obtain ⟨i, is, -, rfl, his⟩ := List.map_eq_cons_iff.mp hrs
    exact .item hstart fun env own henv => ih env (hI env own henv) henv his

namespace Lines

/-- The origin that the arguments of a replay ask for: that of the path, if there is one. -/
inductive AsksFor (args : Fields) : Option String → Prop where
  | all (h : args.get? pathArgument = none) : AsksFor args none
  | one {path : String} (h : requiredPath args = .ok path) : AsksFor args (some path)

/-- A replay with arguments that are accepted is one of the responses of the archive. -/
theorem replay_of_accepted {β : Type} {args : Fields} {origin : Option String} {filters : Filters}
    (horigin : AsksFor args origin) (hfilters : Filters.ofArgs args = .ok filters) (a : Archive)
    (after : Option Calendar.Instant) (env : Env β) :
    replay recordCategory args a after env =
      match a.responses recordCategory after env.files with
      | .error e => .error (.archive e)
      | .ok responses => .ok (responses.filterMap (replayed origin filters)) := by
  have hcategory : checkCategory recordsName [recordCategory] recordCategory = .ok () := rfl
  unfold replay
  refine (bind_of_ok hcategory _).trans ?_
  refine (bind_of_ok hfilters _).trans ?_
  cases horigin with
  | all hnone =>
    rw [hnone]
    rfl
  | one hpath =>
    cases hget : args.get? pathArgument with
    | none =>
      -- A path that is missing is none that is required.
      unfold requiredPath at hpath
      rw [hget] at hpath
      cases hpath
    | some v =>
      dsimp only
      rw [hpath]
      rfl

/-- It gives the responses that are not passed over. -/
theorem replay_of_asked {β : Type} {args : Fields} {origin : Option String} {filters : Filters}
    {a : Archive} {after : Option Calendar.Instant} {env : Env β}
    {responses : Feed (Env β) (Except ArchiveError Response)}
    (horigin : AsksFor args origin) (hfilters : Filters.ofArgs args = .ok filters)
    (hresponses : a.responses recordCategory after env.files = .ok responses) :
    replay recordCategory args a after env =
      .ok (responses.filterMap (replayed origin filters)) := by
  rw [replay_of_accepted horigin hfilters, hresponses]

/-- A replay whose filters are refused is refused. -/
theorem replay_of_refused {β : Type} {args : Fields} {e : BackendError} {a : Archive}
    {after : Option Calendar.Instant} (hfilters : Filters.ofArgs args = .error e) (env : Env β) :
    replay recordCategory args a after env = .error e := by
  have hcategory : checkCategory recordsName [recordCategory] recordCategory = .ok () := rfl
  unfold replay
  exact (bind_of_ok hcategory _).trans (bind_of_error hfilters _)

/-- A replay of a recording that stays gives the items that are asked for. -/
theorem replay_yields {β κ : Type} {I : Store κ → Prop} {recording : Recording}
    (hI : ∀ s, I s → recording.In s.files) {args : Fields} {origin : Option String}
    {filters : Filters} (horigin : AsksFor args origin)
    (hfilters : Filters.ofArgs args = .ok filters) (after : Option Calendar.Instant)
    {env : Env β} {own : κ} (hstart : I ⟨env.files, own⟩) :
    ∃ items : Items β,
      replay recordCategory args recording.archive after env = .ok items ∧
        (items env).Yields I false own ((recording.asked origin after filters).map .ok) := by
  obtain ⟨hlocated, hcontent⟩ := hI _ hstart
  obtain ⟨feed, hfeed, hreads⟩ := Archive.responses_of_file hlocated hcontent after
  rw [Archive.readLines_later recording.reads] at hreads
  have hgives := hreads.filterMap hcontent (replayed origin filters)
  rw [recording.replayed_responses] at hgives
  refine ⟨_, replay_of_asked horigin hfilters hfeed, ?_⟩
  exact hgives.yields (fun env own henv => (hI _ henv).content) hstart

end Lines

end Harvest
