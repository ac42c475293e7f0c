/-
  Harvest.Proofs.Job.ArchivedTwice

  How often a record is archived while a request is executed. A run archives the records whose
  items the queue takes, and the one at which it stops if the queue refuses its item
  (`run_archives`). The next run goes on behind the last item taken, and so archives that record
  anew. Over all runs each record is archived once if its item is taken, and besides once for
  each run that stopped at it (`archived_once_and_at_stops`).
-/
import Mathlib.Data.List.Forall2
import Mathlib.Data.List.Perm.Basic
import Harvest.Proofs.Job.Retries
import Harvest.Proofs.Job.Storing

namespace Harvest

/-! ## Records of a source -/

/-- A record stands on a line of a source, and makes an item that a job passes on. -/
structure Source.Has (source : Source) (job : String) (line : Int) (record : Json) (item : Item) :
    Prop where
  pos : 0 ≤ line
  fits : line < Number.greatestSigned64
  text : ∃ bytes cs, (linesOf source.content)[line.toNat]? = some bytes ∧
    Utf8.decode (chomp bytes) = .ok cs ∧ Json.ofChars cs = .ok record
  item : ∃ made, Record.toItem source.path recordCategory line (line + 1) record = .ok made ∧
    item = made.tagged job

/-- The offset of an item is that of the line behind its record. -/
theorem Source.Has.offset {source : Source} {job : String} {line : Int} {record : Json}
    {item : Item} (h : source.Has job line record item) : item.offset? = some (line + 1) := by
  obtain ⟨made, hmade, rfl⟩ := h.item
  have hpos := h.pos
  have hfits := h.fits
  rw [Item.offset?_tagged, (Record.shaped_of_toItem hmade).offset]
  exact Json.asInt64?_ofInt (by omega) (by omega)

/-- What a task finds in a source stands on a line of it. -/
theorem Lines.Task.FindsIn.has {task : Lines.Task} {source : Source} {line : Int} {record : Json}
    {made : Item} (h : task.FindsIn source line record made) (horigin : task.origin = source.path)
    (hcategory : task.category = recordCategory) (job : String) :
    source.Has job line record (made.tagged job) := by
  obtain ⟨bytes, hbytes, hpos, hfits, hread⟩ := h
  obtain ⟨⟨cs, hcs, hrecord⟩, hitem, -⟩ := Lines.readLine_eq_record hread
  rw [horigin, hcategory] at hitem
  exact ⟨hpos, hfits, ⟨bytes, cs, hbytes, hcs, hrecord⟩, made, hitem, rfl⟩

/-! ## What a run archives -/

/-- What a run archives: the records whose items the queue took, and what it stopped at. -/
structure Share where
  taken : List Entry
  stop : List Entry

namespace Share

/-- All that was archived, in its order. -/
def archived (s : Share) : List Entry := s.taken ++ s.stop

/-- A run for a source archived its share. -/
def Of {β κ : Type} (source : Source) (job : String) (run : Run β κ) (s : Share) : Prop :=
  run.passage.Stored (source.task ⟨none, 0⟩) (source.Has job) 0 s.taken s.stop

section

variable {β κ : Type} {source : Source} {job : String} {runs : List (Run β κ)}
  {shares : List Share}

/-- Runs stop at an item as often as there is a stop in their shares. -/
theorem length_stops (h : List.Forall₂ (Of source job) runs shares) :
    (shares.flatMap stop).length = runs.countP fun run => endsAtItem run.result := by
  induction h with
  | nil => rfl
  | @cons run s runs shares hfirst hrest ih =>
    have hstop : s.stop.length = (endsAtItem run.result).toNat := hfirst.stop
    rw [List.flatMap_cons, List.length_append, hstop, ih, List.countP_cons]
    cases endsAtItem run.result with
    | false => simp
    | true => simp [Nat.add_comm]

/-- The offsets of the items of runs are those of the lines behind their records. -/
theorem offsets_of_shares (h : List.Forall₂ (Of source job) runs shares) :
    (runs.flatMap Run.items).map Item.offset? =
      (shares.flatMap taken).map fun e => some (e.line + 1) := by
  induction h with
  | nil => rfl
  | @cons run s runs shares hfirst hrest ih =>
    have hitems : run.items = s.taken.map Entry.item := hfirst.items
    have hoffsets : run.items.map Item.offset? = s.taken.map fun e => some (e.line + 1) := by
      rw [hitems, List.map_map]
      apply List.map_congr_left
      intro e he
      exact (hfirst.entries e (List.mem_append_left _ he)).record.offset
    rw [List.flatMap_cons, List.flatMap_cons, List.map_append, List.map_append, hoffsets, ih]

end

end Share

namespace Request

/-- A queue that leaves the files alone keeps a source that is apart from the archive. -/
theorem keeps_of_apart {κ : Type} {r : Request} {queue : Queue κ} {first : Store κ}
    {source : Source} {archive : ArchiveArgs}
    (hfiles : ∀ name payload s, (queue.push name payload s).2.files = s.files)
    (harchive : r.archive = some archive)
    (hapart : Archive.Apart ⟨⟨archive.path⟩⟩ r.category first.files source.place)
    (h : source.In first.files) : r.Keeps queue first source := by
  -- The archive stays apart from the source, whatever is stored in it.
  have hboth : ∀ s, r.Reaches queue first s →
      Archive.Apart ⟨⟨archive.path⟩⟩ r.category s.files source.place ∧ source.In s.files := by
    intro s hs
    induction hs with
    | first => exact ⟨hapart, h⟩
    | push hs payload ih =>
      rw [hfiles]
      exact ih
    | @store s hs other hother line ih =>
      rw [harchive] at hother
      cases hother
      obtain ⟨hapart, hsource⟩ := ih
      obtain ⟨hstill, hcontent⟩ := hapart.append hsource.content line
      have hgrows := Archive.append_grows ⟨⟨archive.path⟩⟩ r.category line s.files
      exact ⟨hstill, hgrows.locate hsource.located, hcontent⟩
  exact fun s hs => (hboth s hs).2

variable {β κ : Type} {r : Request} {queue : Queue κ} {source : Source} {filters : Filters}
  {archive : ArchiveArgs} {first : Store κ} {j : Job β κ}

/-- What a fetch stores of a source is a share, which the archive gains. -/
theorem passage_archives (hcategory : r.category = recordCategory)
    (hkeeps : r.Keeps queue first source) (harchive : r.archive = some archive)
    {world : World β κ} (hworld : r.Reaches queue first world.store) {args : Fields}
    (hpath : requiredPath args = .ok source.path) {f : Filters}
    (hf : Filters.ofArgs args = .ok f) {items : Items β} (c : Checkpoint) (job : String) :
    let a : Archive := ⟨⟨archive.path⟩⟩
    let p := Outlet.forwardAll ⟨queue, r.queue⟩ (items.tagged job world.env) c world.queue
    Lines.fetch recordCategory args (some a) world.env = .ok items →
    ∃ taken stop, p.Stored (source.task ⟨none, 0⟩) (source.Has job) 0 taken stop ∧
      (queue.KeepsArchive r.queue a recordCategory →
        a.Gains recordCategory world.env.files p.world.env.files
          (linesOfEntries (taken ++ stop))) := by
  intro a p hfetch
  -- Whenever the stream is drawn from, the source is what it was.
  have hstays : ∀ env : Env β, (∃ own, r.Reaches queue first ⟨env.files, own⟩) →
      env.files.content source.place = .ok source.content := by
    rintro env ⟨own, henv⟩
    exact (hkeeps _ henv).content
  have hstores := Lines.fetch_stores_source hpath hf (hkeeps _ hworld) hstays hfetch
    ⟨world.queue, hworld⟩
  have htagged := hstores.map fun i => i.tagged job
  have hstore : ∀ line s, r.Reaches queue first s →
      r.Reaches queue first ⟨(a.append recordCategory line s.files).2, s.own⟩ := by
    intro line s hs
    have hstored := hs.store harchive line
    rw [hcategory] at hstored
    exact hstored
  obtain ⟨taken, stop, part, hstored, -, hsound, hgains⟩ :=
    Outlet.forwardAll_stores ⟨queue, r.queue⟩ htagged (fun s payload hs => hs.push payload)
      hstore (fun env own henv => ⟨own, henv⟩) c hworld
  rw [hsound rfl, List.append_nil] at hgains
  refine ⟨taken, stop, hstored.mono rfl rfl ?_, hgains⟩
  rintro line record item ⟨made, hfound, rfl⟩
  exact hfound.has rfl rfl job

/-- A run archives a share, behind what the archive held. -/
theorem run_archives (hreads : r.ReadsRecords source filters)
    (hkeeps : r.Keeps queue first source) (hj : r.JobFor Lines.backend queue j)
    (harchive : r.archive = some archive) (resume : Bool) {world : World β κ}
    (hworld : r.Reaches queue first world.store) :
    let run := j.run r.args r.archive resume world
    let a : Archive := ⟨⟨archive.path⟩⟩
    ∃ s, Share.Of source j.jobId run s ∧
      (queue.KeepsArchive r.queue a recordCategory →
        a.Gains recordCategory world.env.files run.world.env.files
          (linesOfEntries s.archived)) := by
  intro run a
  have hgate := hj.ready.opened world.env.files
  have hopen : j.gate.archive = some a := by
    rw [hj.ready.archive, harchive]
    rfl
  have hcategory : j.category = recordCategory := hj.ready.category.trans hreads.category
  have hbackend : j.backend.fetch j.category (j.runArgs r.args resume) j.gate.archive world.env =
      (Lines.fetch recordCategory (j.runArgs r.args resume) (some a) world.env, world.env) := by
    rw [hj.backend, hcategory, hopen]
    rfl
  have hpath := (j.requiredPath_runArgs r.args resume).trans hreads.path
  cases hf : Filters.ofArgs (j.runArgs r.args resume) with
  | error e =>
    rw [Lines.fetch_of_refused hpath hf] at hbackend
    have hrun : run = _ := Job.run_of_fetch_error hgate hreads.live hbackend
    rw [hrun]
    exact ⟨⟨[], []⟩, .none rfl rfl, fun _ => .refl a recordCategory world.env.files⟩
  | ok f =>
    have hfetch := Lines.fetch_of_accepted hpath hf (hkeeps _ hworld).located (some a) .sound
    rw [hfetch] at hbackend
    have hrun : run = _ := Job.run_of_fetch hgate hreads.live hbackend
    obtain ⟨taken, stop, hstored, hgains⟩ := passage_archives hreads.category hkeeps harchive
      hworld hpath hf (j.startPoint resume) j.jobId hfetch
    rw [hrun, hj.outlet]
    exact ⟨⟨taken, stop⟩, hstored, hgains⟩

/-! ## What all runs archive -/

/-- Behind what the archive held stand the shares of all runs so far. -/
theorem series_archives (hreads : r.ReadsRecords source filters) {world : World β κ}
    (hkeeps : r.Keeps queue world.store source) (hj : r.JobFor Lines.backend queue j)
    (harchive : r.archive = some archive) (k : Nat) :
    let a : Archive := ⟨⟨archive.path⟩⟩
    ∃ shares, List.Forall₂ (Share.Of source j.jobId)
        ((List.range (k + 1)).map (r.series false j world)) shares ∧
      (queue.KeepsArchive r.queue a recordCategory →
        a.Gains recordCategory world.env.files (r.series false j world k).world.env.files
          (linesOfEntries (shares.flatMap Share.archived))) := by
  intro a
  have hplain : (Lines.backend : Backend β).ReadsSources := Lines.backend_reads .sound
  induction k with
  | zero =>
    obtain ⟨s, hshare, hgains⟩ := run_archives hreads hkeeps hj harchive false .first
    refine ⟨[s], .cons hshare .nil, ?_⟩
    rw [List.flatMap_singleton]
    exact hgains
  | succ k ih =>
    obtain ⟨shares, hshares, hgained⟩ := ih
    obtain ⟨taken, rest, hprogress⟩ := series_progress hplain hreads hj hkeeps k
    -- The job of the next run is one for the same request, and its share comes behind the others.
    obtain ⟨hj', hid⟩ := hj.series world k
    obtain ⟨s, hshare, hgains⟩ :=
      run_archives hreads hkeeps hj' harchive true hprogress.reaches
    rw [← series_succ] at hshare hgains
    rw [hid] at hshare
    refine ⟨shares ++ [s], ?_, ?_⟩
    · rw [List.range_succ, List.map_append]
      exact List.rel_append hshares (.cons hshare .nil)
    · intro hqueue
      rw [List.flatMap_append, List.flatMap_singleton, linesOfEntries_append]
      exact (hgained hqueue).trans (hgains hqueue)

end Request

/-- The offsets of records that were taken grow. -/
theorem Source.increasing_of_sublist {source : Source} {filters : Filters} {taken : List Item}
    (h : taken.Sublist (goods (source.records filters))) :
    (taken.map Item.offset?).Pairwise fun m n => ∀ k l, m = some k → n = some l → k < l := by
  obtain ⟨offsets, hoffsets, -, hsorted⟩ := source.offsets_of_records filters
  refine List.Pairwise.sublist (h.map Item.offset?) ?_
  rw [hoffsets, List.pairwise_map]
  refine hsorted.imp ?_
  intro m n hless k l hk hl
  cases hk
  cases hl
  exact hless

namespace Share

variable {β κ : Type} {source : Source} {filters : Filters} {job : String} {runs : List (Run β κ)}
  {shares : List Share} {taken : List Item}

/-- The lines of the records that were taken grow. -/
theorem lines_of_taken (h : List.Forall₂ (Of source job) runs shares)
    (htaken : taken.Sublist (goods (source.records filters)))
    (hitems : runs.flatMap Run.items = taken.map fun i => i.tagged job) :
    ((shares.flatMap Share.taken).map Entry.line).Pairwise (· < ·) := by
  have hoffset : (Item.offset? ∘ fun i => i.tagged job) = Item.offset? :=
    funext fun i => i.offset?_tagged job
  have hincreasing := Source.increasing_of_sublist htaken
  rw [← hoffset, ← List.map_map, ← hitems, offsets_of_shares h, List.pairwise_map]
    at hincreasing
  rw [List.pairwise_map]
  refine hincreasing.imp ?_
  intro e f hless
  have hlines := hless _ _ rfl rfl
  omega

/-- A record is archived once if it is taken, and besides as often as a run stopped at it. -/
theorem count_archived (hlines : ((shares.flatMap Share.taken).map Entry.line).Pairwise (· < ·))
    (line : Int) :
    ((shares.flatMap archived).map Entry.line).count line =
      (if line ∈ (shares.flatMap Share.taken).map Entry.line then 1 else 0) +
        ((shares.flatMap stop).map Entry.line).count line := by
  have hnodup : ((shares.flatMap Share.taken).map Entry.line).Nodup :=
    hlines.imp fun hless heq => Int.ne_of_lt hless heq
  have hperm := (List.flatMap_append_perm shares Share.taken stop).map Entry.line
  rw [← hnodup.count, ← List.count_append, ← List.map_append]
  exact (hperm.count_eq line).symm

end Share

/-- While a request for the records of a source is executed with an archive, whatever the queue
    refuses and however the job ends, what is archived are the shares of its runs. A line of the
    source is archived once if its item is taken, and besides once for each run that stopped at
    it, because its item was not passed on; so it is archived no more than once unless a run
    stopped at an item. -/
theorem archived_once_and_at_stops {β κ : Type} {r : Request} {registry : Registry β}
    {queue : Queue κ} {source : Source} {filters : Filters} {world : World β κ}
    {archive : ArchiveArgs} {bytes : Bytes}
    (hfind : registry.find? r.backend = some Lines.backend)
    (hreads : r.ReadsRecords source filters)
    (hkeeps : r.Keeps queue world.store source) (harchive : r.archive = some archive)
    (hqueue : queue.KeepsArchive r.queue ⟨⟨archive.path⟩⟩ recordCategory)
    (hbytes : Archive.Holds ⟨⟨archive.path⟩⟩ recordCategory world.env.files bytes)
    (fresh : String) :
    let e := r.execute registry queue fresh world
    let jobId := r.jobId.getD fresh
    ∃ (runs : List (Run β κ)) (shares : List Share),
      (runs = [] ∨ ∃ job n, r.setUp registry queue jobId world.env.files = .ok job ∧
        runs = (List.range (n + 1)).map (r.series false job world) ∧
        e.result = (r.series false job world n).outcome) ∧
      e.items = runs.flatMap Run.items ∧
      List.Forall₂ (Share.Of source jobId) runs shares ∧
      Archive.Holds ⟨⟨archive.path⟩⟩ recordCategory e.world.env.files
        (bytes ++ linesOfEntries (shares.flatMap Share.archived)) ∧
      ((shares.flatMap Share.taken).map Entry.line).Pairwise (· < ·) ∧
      (∀ line, ((shares.flatMap Share.archived).map Entry.line).count line =
        (if line ∈ (shares.flatMap Share.taken).map Entry.line then 1 else 0) +
          ((shares.flatMap Share.stop).map Entry.line).count line) ∧
      (shares.flatMap Share.stop).length = runs.countP fun run => endsAtItem run.result := by
  intro e jobId
  rcases r.execute_cases registry queue fresh world with
    ⟨-, hnone, hworld⟩ | ⟨job, n, hsetUp, hresult, hitems, hworld, -⟩
  · refine ⟨[], [], .inl rfl, hnone, .nil, ?_, .nil, fun line => rfl, rfl⟩
    show Archive.Holds _ _ e.world.env.files (bytes ++ [])
    rw [List.append_nil, hworld]
    exact hbytes
  · obtain ⟨hj, hid⟩ := Request.jobFor_of_setUp hsetUp hfind
    have hplain : (Lines.backend : Backend β).ReadsSources := Lines.backend_reads .sound
    obtain ⟨shares, hshares, hheld⟩ := Request.series_archives hreads hkeeps hj harchive n
    obtain ⟨taken, rest, hprogress⟩ := Request.series_progress hplain hreads hj hkeeps n
    have htaken : ((List.range (n + 1)).map (r.series false job world)).flatMap Run.items =
        r.takenUpTo job world n := List.flatMap_map _ _ _
    -- A run goes on behind the last item taken, so that no line is taken twice.
    have hlines := Share.lines_of_taken hshares hprogress.leaves.sublist
      (htaken.trans hprogress.items)
    rw [hid] at hshares
    refine ⟨_, shares, .inr ⟨job, n, hsetUp, rfl, hresult⟩, ?_, hshares, ?_, hlines,
      Share.count_archived hlines, Share.length_stops hshares⟩
    · rw [htaken]
      exact hitems
    · rw [hworld]
      exact hheld hqueue bytes hbytes

/-- A request for the records of a file, which are archived. -/
def archivesLines : Request :=
  { readsLines with archive := some ⟨"arch", false, none⟩, maxRetries := 3 }

/-- Whether three lines are found, of which the first and the second are the same. -/
def startsTwice : Except FileFault Bytes → Bool
  | .error _ => false
  | .ok bytes =>
    match linesOf bytes with
    | [first, again, second] =>
      first == again && bytes == first ++ again ++ second && !first.isEmpty
    | _ => false

theorem startsTwice_spec {found : Except FileFault Bytes} (h : startsTwice found = true) :
    ∃ first second, found = .ok (first ++ first ++ second) ∧ first ≠ [] := by
  unfold startsTwice at h
  split at h
  · cases h
  · split at h
    · simp only [Bool.and_eq_true, beq_iff_eq, Bool.not_eq_true', List.isEmpty_eq_false_iff] at h
      obtain ⟨⟨rfl, hbytes⟩, hsome⟩ := h
      exact ⟨_, _, congrArg _ hbytes, hsome⟩
    · cases h

/-- If the first push is refused, both records are taken, and the first of them is archived
    twice. -/
theorem archived_again_after_refused_push :
    let registry : Registry Unit := ⟨[Lines.backend]⟩
    let queue := Queue.refusing [(0, .io "refused")]
    let a : Archive := ⟨⟨"arch"⟩⟩
    let e := archivesLines.execute registry queue "other" twoRecordsWorld
    registry.find? archivesLines.backend = some Lines.backend ∧
      archivesLines.ReadsRecords twoRecordsSource ⟨none, 0⟩ ∧
      archivesLines.Keeps queue twoRecordsWorld.store twoRecordsSource ∧
      archivesLines.archive = some ⟨"arch", false, none⟩ ∧
      queue.KeepsArchive archivesLines.queue a recordCategory ∧
      a.Holds recordCategory twoRecordsWorld.env.files [] ∧
      (∃ runs shares, List.Forall₂ (Share.Of (β := Unit) (κ := Queue.Counted)
          twoRecordsSource "job") runs shares ∧
        a.Holds recordCategory e.world.env.files
          (linesOfEntries (shares.flatMap Share.archived)) ∧
        (shares.flatMap Share.stop).length = runs.countP fun run => endsAtItem run.result) ∧
      e.items.length = 2 ∧
      ∃ first second, a.found recordCategory e.world.env.files =
        .ok (.ok (first ++ first ++ second)) ∧ first ≠ [] := by
  intro registry queue a e
  have hfind : registry.find? archivesLines.backend = some Lines.backend := rfl
  have hreads : archivesLines.ReadsRecords twoRecordsSource ⟨none, 0⟩ := ⟨rfl, rfl, rfl, rfl⟩
  have hsource : twoRecordsSource.In twoRecordsWorld.store.files := ⟨rfl, rfl⟩
  have hlacks : Archive.Lacks ⟨⟨"arch"⟩⟩ recordCategory twoRecordsWorld.env.files :=
    Archive.lacks_of_prepared rfl rfl rfl
  have hfiles := Queue.refusing_files [(0, .io "refused")]
  have hkeeps : archivesLines.Keeps queue twoRecordsWorld.store twoRecordsSource :=
    Request.keeps_of_apart hfiles rfl (.inl hlacks) hsource
  have hqueue : queue.KeepsArchive archivesLines.queue a recordCategory := by
    intro s payload bytes hbytes
    rw [hfiles]
    exact hbytes
  have hbytes : a.Holds recordCategory twoRecordsWorld.env.files [] := .none hlacks
  obtain ⟨runs, shares, -, -, hshares, hheld, -, -, hstops⟩ :=
    archived_once_and_at_stops hfind hreads hkeeps rfl hqueue hbytes "other"
  refine ⟨hfind, hreads, hkeeps, rfl, hqueue, hbytes, ⟨runs, shares, hshares, hheld, hstops⟩,
    by decide +kernel, ?_⟩
  have hfound : (a.found recordCategory e.world.env.files).toOption.any startsTwice = true := by
    decide +kernel
  generalize a.found recordCategory e.world.env.files = found at hfound
  cases found with
  | error failure => cases hfound
  | ok found =>
    obtain ⟨first, second, rfl, hsome⟩ := startsTwice_spec hfound
    exact ⟨first, second, rfl, hsome⟩

end Harvest
