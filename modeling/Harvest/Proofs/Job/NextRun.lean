/-
  Harvest.Proofs.Job.NextRun

  Runs of a request for the records of a source that stays what it is. What the queue takes of a
  run is a prefix of the records that the filters of the run want (`run_records`). The filters of
  a run that goes on want those of the records behind the last item taken that are not dated
  before the latest of the items taken (`records_of_resumeArgs`).
-/
import Harvest.Proofs.Backend.Source
import Harvest.Proofs.Job.Attempts
import Harvest.Proofs.Job.Passing

namespace Harvest

/-! ## What is left behind the items taken -/

/-- Some of the items were passed, down to the last one taken, and the rest is left. -/
def Leaves (all taken rest : List Item) : Prop :=
  ∃ passed, all = passed ++ rest ∧ taken.Sublist passed ∧ taken.getLast? = passed.getLast?

theorem Leaves.refl (all : List Item) : Leaves all [] all :=
  ⟨[], rfl, List.Sublist.refl [], rfl⟩

/-- All that is taken is a part of all items, in their order. -/
theorem Leaves.sublist {all taken rest : List Item} (h : Leaves all taken rest) :
    taken.Sublist all := by
  obtain ⟨passed, hall, hsublist, -⟩ := h
  rw [hall]
  exact hsublist.trans (List.sublist_append_left passed rest)

/-- Taking some of the rest leaves what is behind the last of them. -/
theorem Leaves.take {all taken rest more : List Item} (h : Leaves all taken rest)
    (hmore : more.Sublist rest) : ∃ rest', Leaves all (taken ++ more) rest' := by
  obtain ⟨passed, hall, hsublist, hlast⟩ := h
  cases hend : more.getLast? with
  | none =>
    rw [List.getLast?_eq_none_iff] at hend
    rw [hend, List.append_nil]
    exact ⟨rest, passed, hall, hsublist, hlast⟩
  | some i =>
    -- What is passed by now goes down to the last of the items that are taken anew.
    obtain ⟨front, hfront⟩ := List.getLast?_eq_some_iff.mp hend
    rw [hfront] at hmore
    obtain ⟨r₁, r₂, hrest, hfrontSub, hlastSub⟩ := List.append_sublist_iff.mp hmore
    obtain ⟨s, rest', hsplit⟩ := List.append_of_mem (List.singleton_sublist.mp hlastSub)
    refine ⟨rest', passed ++ (r₁ ++ s ++ [i]), ?_, ?_, ?_⟩
    · rw [hall, hrest, hsplit]
      simp only [List.append_assoc, List.cons_append, List.nil_append]
    · rw [hfront]
      refine hsublist.append ?_
      have hfront' := hfrontSub.trans (List.sublist_append_left r₁ s)
      exact hfront'.append (List.Sublist.refl [i])
    · rw [hfront, ← List.append_assoc, ← List.append_assoc, List.getLast?_concat,
        List.getLast?_concat]

namespace Request

variable {β κ : Type}

/-! ## Requests for the records of a source -/

/-- A request for the records of a source, with arguments that are accepted. -/
structure ReadsRecords (r : Request) (source : Source) (filters : Filters) : Prop where
  category : r.category = recordCategory
  live : Route.select r.archive = .live
  path : requiredPath r.args = .ok source.path
  filters : Filters.ofArgs r.args = .ok filters

/-- What executing a request can bring the files and what its queue keeps to: by pushes to the
    queue of the request, and by responses that are stored in its archive. -/
inductive Reaches (r : Request) (queue : Queue κ) (first : Store κ) : Store κ → Prop where
  | first : Reaches r queue first first
  | push {s : Store κ} (h : Reaches r queue first s) (payload : Bytes) :
      Reaches r queue first (queue.push r.queue payload s).2
  | store {s : Store κ} (h : Reaches r queue first s) {archive : ArchiveArgs}
      (harchive : r.archive = some archive) (line : Bytes) :
      Reaches r queue first ⟨(Archive.append ⟨⟨archive.path⟩⟩ r.category line s.files).2, s.own⟩

/-- A source does not change while a request is executed. -/
def Keeps (r : Request) (queue : Queue κ) (first : Store κ) (source : Source) : Prop :=
  ∀ s, r.Reaches queue first s → source.In s.files

/-- A queue that leaves the files alone keeps a source, if nothing is archived. -/
theorem keeps_of_files {r : Request} {queue : Queue κ} {first : Store κ} {source : Source}
    (hfiles : ∀ name payload s, (queue.push name payload s).2.files = s.files)
    (harchive : r.archive = none) (h : source.In first.files) : r.Keeps queue first source := by
  intro s hs
  induction hs with
  | first => exact h
  | push hs payload ih =>
    rw [hfiles]
    exact ih
  | store hs harchive' line ih =>
    rw [harchive] at harchive'
    cases harchive'

/-- A job for a request, whatever its checkpoint. -/
structure JobFor (r : Request) (b : Backend β) (queue : Queue κ) (j : Job β κ) : Prop where
  ready : r.Ready j
  backend : j.backend = b
  queue : j.queue = queue
  name : j.queueName = r.queue

theorem JobFor.outlet {r : Request} {b : Backend β} {queue : Queue κ} {j : Job β κ}
    (h : r.JobFor b queue j) : j.outlet = ⟨queue, r.queue⟩ := by
  unfold Job.outlet
  rw [h.queue, h.name]

end Request

/-! ## One run -/

namespace Job

variable {β κ : Type}

/-- A run whose fetch gives items passes them on. -/
theorem run_of_fetch {j : Job β κ} {args : Fields} {archive : Option ArchiveArgs} {resume : Bool}
    {world : World β κ} {items : Items β} {env : Env β}
    (hgate : j.gate.ensure world.env.files archive = .ok j.gate)
    (hlive : Route.select archive = .live)
    (hfetch : j.backend.fetch j.category (j.runArgs args resume) j.gate.archive world.env =
      (.ok items, env)) :
    let p := j.outlet.forwardAll (items.tagged j.jobId env) (j.startPoint resume) world.queue
    j.run args archive resume world =
      ⟨p.result, { j with checkpoint := p.checkpoint }, p.items, p.world⟩ := by
  unfold run
  rw [hgate]
  dsimp only
  rw [Gate.items_live hlive, hfetch]
  rfl

/-- A run whose fetch fails takes nothing. -/
theorem run_of_fetch_error {j : Job β κ} {args : Fields} {archive : Option ArchiveArgs}
    {resume : Bool} {world : World β κ} {e : BackendError} {env : Env β}
    (hgate : j.gate.ensure world.env.files archive = .ok j.gate)
    (hlive : Route.select archive = .live)
    (hfetch : j.backend.fetch j.category (j.runArgs args resume) j.gate.archive world.env =
      (.error e, env)) :
    j.run args archive resume world =
      ⟨.error (.backend e), { j with checkpoint := j.startPoint resume }, [],
        { world with env }⟩ := by
  unfold run
  rw [hgate]
  dsimp only
  rw [Gate.items_live hlive, hfetch]
  rfl

/-- Going on leaves the path. -/
theorem requiredPath_runArgs (j : Job β κ) (args : Fields) (resume : Bool) :
    requiredPath (j.runArgs args resume) = requiredPath args := by
  unfold runArgs
  split
  · exact Checkpoint.requiredPath_resumeArgs _ args
  · rfl

end Job

namespace Request

variable {β κ : Type} {r : Request} {b : Backend β} {queue : Queue κ} {first : Store κ}
  {source : Source} {filters f : Filters} {j : Job β κ} {world : World β κ} {resume : Bool}

/-- The source stays for a fetch of a job. -/
theorem Keeps.stays (h : r.Keeps queue first source) (hj : r.Ready j)
    (hcategory : r.category = recordCategory) :
    Lines.Stays (r.Reaches queue first) source.place source.content recordCategory
      j.gate.archive where
  content := fun s hs => (h s hs).content
  store := by
    intro a ha line s hs
    rw [hj.archive] at ha
    cases harchive : r.archive with
    | none =>
      rw [harchive] at ha
      cases ha
    | some archive =>
      rw [harchive] at ha
      cases ha
      have hstored := hs.store harchive line
      rw [hcategory] at hstored
      exact hstored

/-- A run whose filters are accepted passes on the records that are wanted. -/
theorem run_yields (hb : b.ReadsSources) (hreads : r.ReadsRecords source filters)
    (hkeeps : r.Keeps queue first source) (hj : r.JobFor b queue j)
    (hworld : r.Reaches queue first world.store)
    (hf : Filters.ofArgs (j.runArgs r.args resume) = .ok f) :
    ∃ d : Draw (Env β) (Except BackendError Item),
      d.Yields (r.Reaches queue first) r.archive.isSome world.queue
        ((source.records f).map (Except.map fun i => i.tagged j.jobId)) ∧
      let p := Outlet.forwardAll ⟨queue, r.queue⟩ d (j.startPoint resume) world.queue
      j.run r.args r.archive resume world =
        ⟨p.result, { j with checkpoint := p.checkpoint }, p.items, p.world⟩ := by
  have hpath := (j.requiredPath_runArgs r.args resume).trans hreads.path
  obtain ⟨items, hfetch, hyields⟩ := hb.yields hpath hf (hkeeps.stays hj.ready hreads.category)
    (hkeeps _ hworld) hworld
  rw [← hj.backend, ← hreads.category, ← hj.ready.category] at hfetch
  have hrun := Job.run_of_fetch (hj.ready.opened world.env.files) hreads.live hfetch
  have htagged := hyields.map fun i => i.tagged j.jobId
  rw [hj.ready.archive, Option.isSome_map] at htagged
  rw [hj.outlet] at hrun
  exact ⟨_, htagged, hrun⟩

/-- Of a run whose filters are accepted the queue takes a prefix of the records that are wanted,
    and all of them if the run ends well. -/
theorem run_records (hb : b.ReadsSources) (hreads : r.ReadsRecords source filters)
    (hkeeps : r.Keeps queue first source) (hj : r.JobFor b queue j)
    (hworld : r.Reaches queue first world.store)
    (hf : Filters.ofArgs (j.runArgs r.args resume) = .ok f) :
    r.Reaches queue first (j.run r.args r.archive resume world).world.store ∧
      ∃ taken, taken <+: goods (source.records f) ∧
        (j.run r.args r.archive resume world).items = taken.map (fun i => i.tagged j.jobId) ∧
        ((j.run r.args r.archive resume world).result = .ok () →
          taken = goods (source.records f) ∧ ending (source.records f) = .ok ()) := by
  obtain ⟨d, hyields, hrun⟩ := run_yields hb hreads hkeeps hj hworld hf
  have hpush : ∀ s payload, r.Reaches queue first s →
      r.Reaches queue first (queue.push r.queue payload s).2 := fun s payload hs => hs.push payload
  obtain ⟨hstore, hprefix, hall⟩ :=
    Outlet.forwardAll_yields hpush hyields (j.startPoint resume)
  dsimp only at hrun
  rw [hrun]
  refine ⟨hstore, ?_⟩
  rw [goods_tagged] at hprefix hall
  rw [ending_tagged] at hall
  -- The prefix is taken to be all of the records as soon as the run ends well.
  by_cases hok : (j.run r.args r.archive resume world).result = .ok ()
  · rw [hrun] at hok
    obtain ⟨hitems, hending⟩ := hall hok
    exact ⟨goods (source.records f), List.prefix_refl _, hitems, fun _ => ⟨rfl, hending⟩⟩
  · rw [hrun] at hok
    obtain ⟨taken, htaken, hitems⟩ := List.prefix_map_iff.mp hprefix
    exact ⟨taken, htaken, hitems, fun h => absurd h hok⟩

/-- A queue that refuses nothing takes all records that are wanted, if nothing is archived. -/
theorem run_accepted (hb : b.ReadsSources) (hreads : r.ReadsRecords source filters)
    (hkeeps : r.Keeps queue first source) (hj : r.JobFor b queue j)
    (hworld : r.Reaches queue first world.store)
    (hf : Filters.ofArgs (j.runArgs r.args resume) = .ok f) (harchive : r.archive = none)
    (haccepts : ∀ s, r.Reaches queue first s → ∀ payload,
      (queue.push r.queue payload s).1 = .ok ()) :
    (j.run r.args r.archive resume world).items =
        (goods (source.records f)).map (fun i => i.tagged j.jobId) ∧
      (j.run r.args r.archive resume world).result = ending (source.records f) := by
  obtain ⟨d, hyields, hrun⟩ := run_yields hb hreads hkeeps hj hworld hf
  have hpush : ∀ s payload, r.Reaches queue first s →
      ∃ t, queue.push r.queue payload s = (.ok (), t) ∧ r.Reaches queue first t := by
    intro s payload hs
    have hafter := hs.push payload
    have haccepted := haccepts s hs payload
    generalize queue.push r.queue payload s = p at hafter haccepted
    obtain ⟨result, t⟩ := p
    cases haccepted
    exact ⟨t, rfl, hafter⟩
  rw [show r.archive.isSome = false by rw [harchive, Option.isSome_none]] at hyields
  obtain ⟨hitems, hresult⟩ := Outlet.forwardAll_accepted hpush hyields (j.startPoint resume)
  rw [goods_tagged] at hitems
  rw [ending_tagged] at hresult
  dsimp only at hrun
  rw [hrun]
  exact ⟨hitems, hresult⟩

/-- A run whose filters are refused takes nothing, and ends with the refusal. -/
theorem run_records_refused {e : BackendError} (hb : b.ReadsSources)
    (hreads : r.ReadsRecords source filters) (hj : r.JobFor b queue j)
    (world : World β κ) (hf : Filters.ofArgs (j.runArgs r.args resume) = .error e) :
    (j.run r.args r.archive resume world).items = [] ∧
      (j.run r.args r.archive resume world).world = world ∧
      (j.run r.args r.archive resume world).result = .error (.backend e) := by
  have hpath := (j.requiredPath_runArgs r.args resume).trans hreads.path
  have hfetch := hb.refused j.gate.archive world.env hpath hf
  rw [← hj.backend, ← hreads.category, ← hj.ready.category] at hfetch
  rw [Job.run_of_fetch_error (hj.ready.opened world.env.files) hreads.live hfetch]
  exact ⟨rfl, rfl, rfl⟩

end Request

/-! ## The filters of a run that goes on -/

namespace Item

/-- The time of update that a job keeps of several items is one of theirs. -/
theorem isLatest_latest {taken : List Item} (h : ∀ i ∈ taken, ∃ m, i.marks = .ok m) :
    IsLatest taken (latest taken) := by
  have haccounts := (Checkpoint.Accounts.reset (.start "" "" "" "")).recordAll h
  have hlatest := haccounts.maxDate
  rw [Checkpoint.maxDate_recordAll, List.nil_append] at hlatest
  exact hlatest

/-- The date from which a run goes on behind several items is that of one of them, to the
    nearest millisecond. -/
theorem exists_of_nextDate {taken : List Item} (h : ∀ i ∈ taken, ∃ m, i.marks = .ok m)
    {t : Calendar.Instant} (ht : nextDate taken = some t) :
    ∃ i ∈ taken, ∃ updated, i.updated? = some updated ∧
      t.toMillis = Number.roundToInt64 (updated * 1000) := by
  have hlatest := isLatest_latest h
  unfold nextDate at ht
  cases hgreatest : latest taken with
  | none =>
    rw [hgreatest] at ht
    cases ht
  | some greatest =>
    rw [hgreatest] at ht hlatest
    obtain ⟨⟨i, hi, hupdated⟩, -⟩ := hlatest
    have ht : Calendar.Instant.ofSeconds? greatest = some t := ht
    unfold Calendar.Instant.ofSeconds? at ht
    split at ht
    · exact ⟨i, hi, greatest, hupdated, Calendar.Instant.ofMillis?_toMillis ht⟩
    · cases ht

end Item

namespace Filters

/-- The filters of a run that goes on behind several items, but for the line to start at. -/
def behind (filters : Filters) (taken : List Item) : Filters := filters.since (Item.nextDate taken)

/-- The filters of a run that goes on behind several items, from a line on. -/
def goingOn (filters : Filters) (taken : List Item) (line : Int) : Filters :=
  { filters.behind taken with offset := line }

@[simp] theorem offset_goingOn (filters : Filters) (taken : List Item) (line : Int) :
    (filters.goingOn taken line).offset = line := rfl

@[simp] theorem skipsItem_goingOn (filters : Filters) (taken : List Item) (line : Int) :
    (filters.goingOn taken line).skipsItem = (filters.behind taken).skipsItem := rfl

/-- A run that goes on behind items that were wanted wants no item that was not. -/
theorem skipsItem_behind {filters : Filters} {taken : List Item}
    (hmarks : ∀ i ∈ taken, ∃ m, i.marks = .ok m)
    (hwanted : ∀ i ∈ taken, filters.skipsItem i = false) (i : Item)
    (h : filters.skipsItem i = true) : (filters.behind taken).skipsItem i = true := by
  obtain ⟨least, updated, hleast, hupdated, hearly⟩ := skipsItem_eq_true_iff.mp h
  rw [skipsItem_eq_true_iff]
  unfold behind
  cases hdate : Item.nextDate taken with
  | none => exact ⟨least, updated, hleast, hupdated, hearly⟩
  | some t =>
    obtain ⟨k, hk, updated', hupdated', ht⟩ := Item.exists_of_nextDate hmarks hdate
    -- The date is that of an item that was wanted, and so none that is too early.
    have hlate : ¬ Number.roundToInt64 (updated' * 1000) < least := by
      intro hearly'
      have hskips := skipsItem_eq_true_iff.mpr ⟨least, updated', hleast, hupdated', hearly'⟩
      rw [hwanted k hk] at hskips
      cases hskips
    exact ⟨t.toMillis, updated, rfl, hupdated, by omega⟩

end Filters

namespace Source

variable {source : Source} {filters : Filters} {args : Fields} {c : Checkpoint}
  {taken rest : List Item}

/-- The arguments to go on with are refused behind items behind which no run can go on. -/
theorem resumeArgs_refused (hdate : c.maxDate = none) (hstuck : ¬ Item.CanGoOn taken)
    (args : Fields) :
    ∃ words, Filters.ofArgs ((c.recordAll taken).resumeArgs args) =
      .error (.invalidArgument words) := by
  obtain ⟨t, ht⟩ := Classical.not_forall.mp hstuck
  obtain ⟨hnext, hyear⟩ := Classical.not_imp.mp ht
  have hfrom := (Checkpoint.fromDate_recordAll hdate taken).trans hnext
  exact Checkpoint.ofArgs_resumeArgs_of_signed hfrom hyear

/-- Before any item was taken a run goes on with the arguments of the caller. -/
theorem resumeArgs_start (hdate : c.maxDate = none) (hoffset : c.offset = none) (args : Fields) :
    c.resumeArgs args = args := by
  unfold Checkpoint.resumeArgs Checkpoint.fromDate
  rw [hdate, hoffset]
  rfl

/-- Behind several items a run goes on from the latest of their dates and from the offset of the
    last of them. -/
theorem ofArgs_behind (hdate : c.maxDate = none) (hargs : Filters.ofArgs args = .ok filters)
    {i : Item} {m : Marks} {n : Int} (hlast : taken.getLast? = some i) (hm : i.marks = .ok m)
    (hoffset : i.offset? = some n) (hpos : 0 ≤ n) (hgoes : Item.CanGoOn taken) :
    Filters.ofArgs ((c.recordAll taken).resumeArgs args) = .ok (filters.goingOn taken n) := by
  have hfits : n ≤ Number.greatestSigned64 := by
    unfold Item.offset? at hoffset
    obtain ⟨v, -, hv⟩ := Option.bind_eq_some_iff.mp hoffset
    exact Json.le_of_asInt64? hv
  have hlastOffset := Checkpoint.offset_recordAll (c := c) hlast hm hoffset
  have hfrom := Checkpoint.fromDate_recordAll hdate taken
  have hnext : (c.recordAll taken).nextFilters filters n = filters.goingOn taken n := by
    unfold Checkpoint.nextFilters Filters.goingOn Filters.behind
    rw [hfrom]
  rw [← hnext]
  refine Checkpoint.ofArgs_resumeArgs hargs hlastOffset hpos hfits ?_
  rw [hfrom]
  exact hgoes

/-- A run that goes on behind some of the records wants those that are left, but for those that
    are dated before the latest of the records taken. -/
theorem records_of_resumeArgs (hdate : c.maxDate = none) (hoffset : c.offset = none)
    (hargs : Filters.ofArgs args = .ok filters)
    (hleaves : Leaves (goods (source.records filters)) taken rest)
    (hgoes : Item.CanGoOn taken) :
    ∃ f, Filters.ofArgs ((c.recordAll taken).resumeArgs args) = .ok f ∧
      goods (source.records f) = rest.filter (fun i => !(filters.behind taken).skipsItem i) ∧
      ending (source.records f) = ending (source.records filters) := by
  have htaken := hleaves.sublist
  obtain ⟨passed, hall, -, hlast⟩ := hleaves
  have hwanted : ∀ i ∈ goods (source.records filters), filters.skipsItem i = false :=
    fun i hi => (source.wants_of_records filters i hi).item
  cases hend : taken.getLast? with
  | none =>
    -- Nothing was taken, and so nothing passed.
    rw [hend, eq_comm, List.getLast?_eq_none_iff] at hlast
    rw [List.getLast?_eq_none_iff] at hend
    rw [hlast, List.nil_append] at hall
    subst hend
    refine ⟨filters, ?_, ?_, rfl⟩
    · show Filters.ofArgs (c.resumeArgs args) = _
      rw [resumeArgs_start hdate hoffset, hargs]
    · rw [hall, eq_comm, List.filter_eq_self]
      intro i hi
      show (!filters.skipsItem i) = true
      rw [hwanted i (hall ▸ hi), Bool.not_false]
  | some i =>
    rw [hend] at hlast
    obtain ⟨front, hfront⟩ := List.getLast?_eq_some_iff.mp hlast.symm
    rw [hfront, List.append_assoc, List.singleton_append] at hall
    have hi : i ∈ goods (source.records filters) := by
      rw [hall]
      exact List.mem_append_right front (List.mem_cons_self ..)
    obtain ⟨m, hm⟩ := marks_of_mem_goods i hi
    obtain ⟨n, hoffset', hpos⟩ := source.offset_of_mem_records filters hi
    have hmarks : ∀ i ∈ taken, ∃ m, i.marks = .ok m :=
      fun i hi => marks_of_mem_goods i (htaken.subset hi)
    have hnarrow := Filters.skipsItem_behind hmarks fun i hi => hwanted i (htaken.subset hi)
    refine ⟨filters.goingOn taken n, ?_, ?_⟩
    · exact ofArgs_behind hdate hargs hend hm hoffset' (Int.le_of_lt hpos) hgoes
    · exact records_from hall hoffset' hnarrow

end Source

end Harvest
