/-
  Harvest.Proofs.Job.Lossless

  When retries lose nothing. A run that goes on asks for the records behind the last item taken
  that are not dated before the latest of the items taken. If every record is dated no earlier
  than those in front of it, that is all that is left, and a job that ends well has taken what
  an uninterrupted run takes. If a record is dated before one in front of it, refusing a single
  push in between loses it (`execute_after_refusal`), although the job ends well
  (`loses_nothing_iff`).
-/
import Harvest.Proofs.Job.Retries

namespace Harvest

/-! ## A queue that refuses one push -/

namespace Queue

variable {n : Nat} {e : QueueError} {s : Store Counted}

theorem refusing_push_refused (h : s.own.pushes = n) (name : String) (payload : Bytes) :
    (refusing [(n, e)]).push name payload s =
      (.error e, ⟨s.files, s.own.memory, n + 1⟩) := by
  unfold refusing
  dsimp only
  rw [h, lookup_cons_ite, if_pos rfl]

theorem refusing_push_accepted (h : s.own.pushes ≠ n) (name : String) (payload : Bytes) :
    (refusing [(n, e)]).push name payload s =
      (.ok (), ⟨s.files, s.own.memory.push name payload, s.own.pushes + 1⟩) := by
  unfold refusing
  dsimp only
  rw [lookup_cons_ite, if_neg h]
  rfl

/-- Pushes are counted whether they are refused or not. -/
theorem refusing_pushes (name : String) (payload : Bytes) :
    ((refusing [(n, e)]).push name payload s).2.own.pushes = s.own.pushes + 1 := by
  by_cases h : s.own.pushes = n
  · rw [refusing_push_refused h, h]
  · rw [refusing_push_accepted h]

/-- The push that is refused is that of the number. -/
theorem refusing_eq_error {name : String} {payload : Bytes} {e' : QueueError} {t : Store Counted}
    (h : (refusing [(n, e)]).push name payload s = (.error e', t)) :
    s.own.pushes = n ∧ e' = e ∧ t = ⟨s.files, s.own.memory, n + 1⟩ := by
  by_cases hn : s.own.pushes = n
  · rw [refusing_push_refused hn] at h
    cases h
    exact ⟨hn, rfl, rfl⟩
  · rw [refusing_push_accepted hn] at h
    cases h

theorem refusing_eq_ok {name : String} {payload : Bytes} {t : Store Counted}
    (h : (refusing [(n, e)]).push name payload s = (.ok (), t)) :
    s.own.pushes ≠ n ∧ t = ⟨s.files, s.own.memory.push name payload, s.own.pushes + 1⟩ := by
  by_cases hn : s.own.pushes = n
  · rw [refusing_push_refused hn] at h
    cases h
  · rw [refusing_push_accepted hn] at h
    cases h
    exact ⟨hn, rfl⟩

end Queue

/-- A queue that refuses the push of a number takes the items in front of it. -/
theorem Outlet.forwardAll_refusing {β : Type} {I : Store Queue.Counted → Prop} {n : Nat}
    {e : QueueError} {name : String}
    (hpush : ∀ s payload, I s → I ((Queue.refusing [(n, e)]).push name payload s).2)
    {d : Draw (Env β) (Except BackendError Item)} {own : Queue.Counted}
    {rs : List (Except BackendError Item)} (h : d.Yields I false own rs) (c : Checkpoint) :
    own.pushes ≤ n → n < own.pushes + (goods rs).length →
      let p := forwardAll ⟨Queue.refusing [(n, e)], name⟩ d c own
      p.items = (goods rs).take (n - own.pushes) ∧ p.result = .error (.queue e) ∧
        p.world.queue.pushes = n + 1 := by
  -- The pushes so far and those to come always add up to the one that is refused.
  induction h generalizing c with
  | stop h =>
    intro hbefore hless
    exact absurd hless (Nat.not_lt.mpr hbefore)
  | error h fault =>
    intro hbefore hless
    exact absurd hless (Nat.not_lt.mpr hbefore)
  | cut h harchives fault => cases harchives
  | @item env own rest i rs h hrest ih =>
    intro hbefore hless
    have hkept := hpush ⟨env.files, own⟩ i.bytes h
    have hpasses := forwardAll_passes ⟨Queue.refusing [(n, e)], name⟩ i c env rest own
    generalize forwardAll ⟨Queue.refusing [(n, e)], name⟩ (.item (.ok i) env rest) c own = p
      at hpasses ⊢
    cases hpasses with
    | unmarked hm =>
      rw [goods_of_unmarked hm] at hless
      exact absurd hless (Nat.not_lt.mpr hbefore)
    | refused hm hp =>
      obtain ⟨hn, rfl, rfl⟩ := Queue.refusing_eq_error hp
      have hn : own.pushes = n := hn
      rw [hn, Nat.sub_self, List.take_zero]
      exact ⟨rfl, rfl, rfl⟩
    | accepted hm hp =>
      rw [hp] at hkept
      obtain ⟨hn, rfl⟩ := Queue.refusing_eq_ok hp
      have hn : own.pushes ≠ n := hn
      rw [goods_of_marks hm, List.length_cons] at hless
      rw [goods_of_marks hm]
      obtain ⟨hitems, hresult, hpushes⟩ := ih env
        ⟨own.memory.push name i.bytes, own.pushes + 1⟩ hkept (c.recordItem i)
        (by show own.pushes + 1 ≤ n; omega) (by show n < own.pushes + 1 + _; omega)
      refine ⟨?_, hresult, hpushes⟩
      have htake : n - own.pushes = n - (own.pushes + 1) + 1 := by omega
      rw [htake, List.take_succ_cons]
      exact congrArg (i :: ·) hitems

/-- If no push was made before, the push that is refused is that of the item behind as many others
    as its number tells. -/
theorem Outlet.forwardAll_refused_behind {β : Type} {I : Store Queue.Counted → Prop} {n : Nat}
    {e : QueueError} {name : String}
    (hpush : ∀ s payload, I s → I ((Queue.refusing [(n, e)]).push name payload s).2)
    {d : Draw (Env β) (Except BackendError Item)} {rs : List (Except BackendError Item)}
    (h : d.Yields I false .empty rs) {front rest : List Item} (hgoods : goods rs = front ++ rest)
    (hfront : front.length = n) (hrest : rest ≠ []) (c : Checkpoint) :
    let p := forwardAll ⟨Queue.refusing [(n, e)], name⟩ d c .empty
    p.items = front ∧ p.result = .error (.queue e) ∧ p.world.queue.pushes = n + 1 := by
  subst hfront
  have hnone : Queue.Counted.empty.pushes = 0 := rfl
  have hless : front.length < Queue.Counted.empty.pushes + (goods rs).length := by
    have hpos := List.length_pos_iff.mpr hrest
    rw [hgoods, hnone, List.length_append]
    omega
  obtain ⟨hitems, hresult, hpushes⟩ := forwardAll_refusing hpush h c (Nat.zero_le _) hless
  rw [hgoods, hnone, Nat.sub_zero, List.take_left] at hitems
  exact ⟨hitems, hresult, hpushes⟩

/-! ## One refusal -/

theorem Leaves.of_append (taken rest : List Item) : Leaves (taken ++ rest) taken rest :=
  ⟨taken, rfl, List.Sublist.refl taken, rfl⟩

namespace Request

section

variable {β : Type} {r : Request} {registry : Registry β} {source : Source} {filters : Filters}
  {env : Env β} {before after : List Item}

/-- A valid request is set up for the backend that it names, if its archive can be opened. -/
theorem setUp_of_validate {κ : Type} {b : Backend β} (hfind : registry.find? r.backend = some b)
    (hvalid : r.validate = .ok ()) {files : FileTree} {gate : Gate}
    (hopen : Gate.openFor files r.archive = .ok gate) (queue : Queue κ) (jobId : String) :
    ∃ job, r.setUp registry queue jobId files = .ok job := by
  unfold setUp Job.create
  rw [hvalid, hfind]
  exact ⟨_, bind_of_ok hopen _⟩

/-- A request for records that may fail twice ends well if its second run does, and the first one
    ends because the queue refused an item. -/
theorem execute_of_refusal {κ : Type} (queue : Queue κ) (world : World β κ) {gate : Gate}
    (hfind : registry.find? r.backend = some Lines.backend) (hvalid : r.validate = .ok ())
    (hopen : Gate.openFor world.env.files r.archive = .ok gate) (hretries : r.maxRetries = 2)
    {words : String}
    (hfirst : ∀ job, r.JobFor Lines.backend queue job →
      (r.series false job world 0).result = .error (.queue (.io words)))
    (hsecond : ∀ job, r.JobFor Lines.backend queue job →
      (r.series false job world 1).result = .ok ()) (fresh : String) :
    ∃ job, r.JobFor Lines.backend queue job ∧ job.jobId = r.jobId.getD fresh ∧
      (∃ c, (r.execute registry queue fresh world).result = .ok c) ∧
      (r.execute registry queue fresh world).items = r.takenUpTo job world 1 := by
  obtain ⟨job, hsetUp⟩ := setUp_of_validate hfind hvalid hopen queue (r.jobId.getD fresh)
  obtain ⟨hj, hid⟩ := jobFor_of_setUp hsetUp hfind
  have harchiving : validateArchiving job.backend r.archive = .ok () := by
    rw [hj.backend]
    unfold validateArchiving
    rw [if_neg (by simp [Lines.backend])]
  have hresuming : job.backend.resuming = true := by
    rw [hj.backend]
    rfl
  -- The refusal is worth another run, and after that one there is no other.
  obtain ⟨hok, htaken⟩ :=
    execute_of_second hsetUp harchiving hresuming hretries (hfirst job hj) rfl (hsecond job hj)
  exact ⟨job, hj, hid, hok, htaken⟩

/-- Once a queue that refuses a single push has refused it, it takes whatever comes. -/
theorem Reaches.accepts {n : Nat} {e : QueueError} {first s : Store Queue.Counted}
    (hfirst : n < first.own.pushes) (h : r.Reaches (Queue.refusing [(n, e)]) first s) :
    n < s.own.pushes := by
  induction h with
  | first => exact hfirst
  | push h payload ih =>
    rw [Queue.refusing_pushes]
    exact Nat.lt_succ_of_lt ih
  | store h harchive line ih => exact ih

variable (hfind : registry.find? r.backend = some Lines.backend) (hvalid : r.validate = .ok ())
  (hreads : r.ReadsRecords source filters) (harchive : r.archive = none)
  (hsource : source.In env.files) (hall : goods (source.records filters) = before ++ after)
  (hafter : after ≠ [])

include hreads harchive hsource hall hafter

/-- The first run ends with the refusal, behind the items in front of it. -/
theorem first_refused {e : QueueError} {job : Job β Queue.Counted}
    (hj : r.JobFor Lines.backend (Queue.refusing [(before.length, e)]) job) :
    let world : World β Queue.Counted := ⟨env, .empty⟩
    r.Progress (Queue.refusing [(before.length, e)]) source filters job world 0 before after ∧
      (r.series false job world 0).result = .error (.queue e) ∧
      (r.series false job world 0).world.queue.pushes = before.length + 1 := by
  intro world
  have hkeeps : r.Keeps (Queue.refusing [(before.length, e)]) world.store source :=
    keeps_of_files (Queue.refusing_files _) harchive hsource
  have hfirst : r.Reaches (Queue.refusing [(before.length, e)]) world.store world.store := .first
  have hf : Filters.ofArgs (job.runArgs r.args false) = .ok filters := hreads.filters
  obtain ⟨d, hyields, hrun⟩ := run_yields (Lines.backend_reads .sound) hreads hkeeps hj hfirst hf
  rw [show r.archive.isSome = false by rw [harchive, Option.isSome_none]] at hyields
  have hgoods : goods ((source.records filters).map (Except.map fun i => i.tagged job.jobId)) =
      before.map (fun i => i.tagged job.jobId) ++ after.map fun i => i.tagged job.jobId := by
    rw [goods_tagged, hall, List.map_append]
  have hmore : (after.map fun i => i.tagged job.jobId) ≠ [] := by simpa using hafter
  obtain ⟨hitems, hresult, hpushes⟩ := Outlet.forwardAll_refused_behind
    (fun s payload hs => hs.push payload) hyields hgoods (List.length_map _) hmore
    (job.startPoint false)
  have hreaches := (first_records (Lines.backend_reads .sound) hreads hj hkeeps).1
  have hseries : r.series false job world 0 = _ := hrun
  refine ⟨⟨hreaches, ?_, ?_⟩, ?_, ?_⟩
  · rw [hall]
    exact Leaves.of_append before after
  · rw [takenUpTo_zero, hseries]
    exact hitems
  · rw [hseries]
    exact hresult
  · rw [hseries]
    exact hpushes

/-- The second run takes what it wants of the items behind the refusal. -/
theorem second_accepted {e : QueueError} {job : Job β Queue.Counted}
    (hj : r.JobFor Lines.backend (Queue.refusing [(before.length, e)]) job)
    (hgoes : Item.CanGoOn before) :
    let world : World β Queue.Counted := ⟨env, .empty⟩
    (r.series false job world 1).items = (after.filter fun i =>
        !(filters.behind before).skipsItem i).map (fun i => i.tagged job.jobId) ∧
      (r.series false job world 1).result = ending (source.records filters) := by
  intro world
  obtain ⟨h, -, hpushes⟩ := first_refused hreads harchive hsource hall hafter hj
  have hkeeps : r.Keeps (Queue.refusing [(before.length, e)]) world.store source :=
    keeps_of_files (Queue.refusing_files _) harchive hsource
  obtain ⟨hj', hid⟩ := hj.series world 0
  have hargs := series_runArgs hj.ready world 0 h.items
  have hdate : (job.checkpoint.resumed (0 + 1)).maxDate = none := rfl
  have hoffset : (job.checkpoint.resumed (0 + 1)).offset = none := rfl
  obtain ⟨f, hf, hgoods, hending⟩ :=
    Source.records_of_resumeArgs hdate hoffset hreads.filters h.leaves hgoes
  rw [← hargs] at hf
  -- From here on no push has the number that is refused.
  have hsource' : source.In (r.series false job world 0).world.store.files :=
    hkeeps _ h.reaches
  have hkeeps' := keeps_of_files (r := r) (Queue.refusing_files [(before.length, e)]) harchive
    hsource'
  have hless : before.length < (r.series false job world 0).world.store.own.pushes := by
    show before.length < (r.series false job world 0).world.queue.pushes
    exact Nat.lt_of_lt_of_eq (Nat.lt_succ_self before.length) hpushes.symm
  have haccepts : ∀ s, r.Reaches (Queue.refusing [(before.length, e)])
      (r.series false job world 0).world.store s → ∀ payload,
      ((Queue.refusing [(before.length, e)]).push r.queue payload s).1 = .ok () := by
    intro s hs payload
    have hpassed := hs.accepts hless
    rw [Queue.refusing_push_accepted (Nat.ne_of_gt hpassed)]
  obtain ⟨hitems, hresult⟩ := run_accepted (Lines.backend_reads .sound) hreads hkeeps' hj' .first hf
    harchive haccepts
  rw [hgoods, hid] at hitems
  rw [hending] at hresult
  rw [series_succ]
  exact ⟨hitems, hresult⟩

include hfind hvalid

/-- A request that may fail twice ends well behind a single refusal, with what its second run
    wants of the items behind it. -/
theorem execute_after_refusal (hretries : r.maxRetries = 2)
    (hending : ending (source.records filters) = .ok ())
    (hgoes : Item.CanGoOn before) (words fresh : String) :
    let e := r.execute registry (Queue.refusing [(before.length, .io words)]) fresh ⟨env, .empty⟩
    (∃ c, e.result = .ok c) ∧
      e.items = (before ++ after.filter fun i => !(filters.behind before).skipsItem i).map
        fun i => i.tagged (r.jobId.getD fresh) := by
  intro e
  have hopen : Gate.openFor env.files r.archive = .ok .shut := by
    rw [harchive]
    rfl
  have hfirst : ∀ job : Job β Queue.Counted,
      r.JobFor Lines.backend (Queue.refusing [(before.length, .io words)]) job →
      (r.series false job ⟨env, .empty⟩ 0).result = .error (.queue (.io words)) := by
    intro job hj
    obtain ⟨-, hresult, -⟩ := first_refused hreads harchive hsource hall hafter hj
    exact hresult
  have hsecond : ∀ job : Job β Queue.Counted,
      r.JobFor Lines.backend (Queue.refusing [(before.length, .io words)]) job →
      (r.series false job ⟨env, .empty⟩ 1).result = .ok () := by
    intro job hj
    obtain ⟨-, hresult⟩ := second_accepted hreads harchive hsource hall hafter hj hgoes
    rw [hending] at hresult
    exact hresult
  obtain ⟨job, hj, hid, hok, htaken⟩ :=
    execute_of_refusal (Queue.refusing [(before.length, .io words)]) ⟨env, .empty⟩ hfind hvalid
      hopen hretries hfirst hsecond fresh
  obtain ⟨h, -, -⟩ := first_refused hreads harchive hsource hall hafter hj
  obtain ⟨hitems, -⟩ := second_accepted hreads harchive hsource hall hafter hj hgoes
  refine ⟨hok, ?_⟩
  have hitems' : e.items = _ := htaken
  rw [hitems', takenUpTo_succ, h.items, hitems, ← hid, List.map_append]

end

end Request

/-! ## Items in the order of their dates -/

namespace Item

/-- Wherever a run can go on behind some of the items, the date to go on from is not later, to
    the nearest millisecond, than that of any item behind them. -/
def InDateOrder (items : List Item) : Prop :=
  ∀ before after, items = before ++ after → CanGoOn before →
    ∀ t, nextDate before = some t → ∀ i ∈ after, ∀ updated, i.updated? = some updated →
      t.toMillis ≤ Number.roundToInt64 (updated * 1000)

theorem nextDate_tagged (items : List Item) (job : String) :
    nextDate (items.map fun i => i.tagged job) = nextDate items := by
  have hlater : (fun (greatest : Option Float) (i : Item) => laterThan greatest (i.tagged job)) =
      laterThan := by
    funext greatest i
    unfold laterThan
    rw [marks_tagged]
  unfold nextDate latest
  rw [List.foldl_map, hlater]

theorem canGoOn_tagged {items : List Item} {job : String} :
    CanGoOn (items.map fun i => i.tagged job) ↔ CanGoOn items := by
  unfold CanGoOn
  rw [nextDate_tagged]

theorem inDateOrder_tagged {items : List Item} {job : String} :
    InDateOrder (items.map fun i => i.tagged job) ↔ InDateOrder items := by
  constructor
  · intro h before after hitems hgoes t ht i hi updated hupdated
    subst hitems
    refine h _ _ List.map_append (canGoOn_tagged.mpr hgoes) t ?_ (i.tagged job)
      (List.mem_map_of_mem hi) updated ?_
    · rw [nextDate_tagged]
      exact ht
    · rw [updated?_tagged]
      exact hupdated
  · intro h before after hitems hgoes t ht i hi updated hupdated
    obtain ⟨front, rest, rfl, rfl, rfl⟩ := List.map_eq_append_iff.mp hitems
    rw [nextDate_tagged] at ht
    obtain ⟨k, hk, rfl⟩ := List.mem_map.mp hi
    rw [updated?_tagged] at hupdated
    exact h front rest rfl (canGoOn_tagged.mp hgoes) t ht k hk updated hupdated

end Item

/-- If the records are in the order of their dates, a run that goes on behind some of them wants
    all that is left. -/
theorem Source.filter_behind {source : Source} {filters : Filters} {taken rest : List Item}
    (hdates : Item.InDateOrder (goods (source.records filters)))
    (hall : goods (source.records filters) = taken ++ rest)
    (hgoes : Item.CanGoOn taken) :
    rest.filter (fun i => !(filters.behind taken).skipsItem i) = rest := by
  rw [List.filter_eq_self]
  intro i hi
  have hwanted : filters.skipsItem i = false :=
    (source.wants_of_records filters i (hall ▸ List.mem_append_right taken hi)).item
  rw [Bool.not_eq_true']
  cases ht : Item.nextDate taken with
  | none =>
    rw [Filters.behind, ht, Filters.since_none, hwanted]
  | some t =>
    rw [← Bool.not_eq_true]
    intro hskips
    obtain ⟨least, updated, hleast, hupdated, hearly⟩ := Filters.skipsItem_eq_true_iff.mp hskips
    rw [Filters.behind, ht, Filters.fromMillis_since] at hleast
    cases hleast
    have hlate := hdates taken rest hall hgoes t ht i hi updated hupdated
    omega

namespace Request

section

variable {β κ : Type} {r : Request} {b : Backend β} {queue : Queue κ} {source : Source}
  {filters : Filters} {job : Job β κ} {world : World β κ}
  (hb : b.ReadsSources) (hreads : r.ReadsRecords source filters)
  (hj : r.JobFor b queue job) (hkeeps : r.Keeps queue world.store source)

include hb hreads hj hkeeps

/-- No run ends well if the records end with an error. -/
theorem ending_of_series {k : Nat} (h : (r.series false job world k).result = .ok ()) :
    ending (source.records filters) = .ok () := by
  cases k with
  | zero =>
    obtain ⟨-, taken, -, -, hall⟩ := first_records hb hreads hj hkeeps
    exact (hall h).2
  | succ k =>
    obtain ⟨taken, rest, hprogress⟩ := series_progress hb hreads hj hkeeps k
    by_cases hgoes : Item.CanGoOn taken
    · obtain ⟨-, more, -, -, hall⟩ := next_records hb hreads hj hkeeps hprogress hgoes
      exact (hall h).2
    · obtain ⟨-, -, words, hresult⟩ := next_refused hb hreads hj hprogress hgoes
      rw [h] at hresult
      cases hresult

/-- If the records are in the order of their dates, nothing is ever passed that is not taken,
    and a run that ends well leaves nothing. -/
theorem series_prefix (hdates : Item.InDateOrder (goods (source.records filters))) (k : Nat) :
    ∃ taken rest, r.Progress queue source filters job world k taken rest ∧
      goods (source.records filters) = taken ++ rest ∧
      ((r.series false job world k).result = .ok () → rest = []) := by
  -- As long as a prefix is taken, what is left is all that the next run is asked for.
  induction k with
  | zero =>
    obtain ⟨hreaches, taken, ⟨rest, hall⟩, hitems, hend⟩ := first_records hb hreads hj hkeeps
    refine ⟨taken, rest, ⟨hreaches, ?_, ?_⟩, hall.symm, ?_⟩
    · rw [← hall]
      exact Leaves.of_append taken rest
    · rw [takenUpTo_zero, hitems]
    · intro hok
      rw [← hall] at hend
      exact List.self_eq_append_right.mp (hend hok).1
  | succ k ih =>
    obtain ⟨taken, rest, h, hall, -⟩ := ih
    by_cases hgoes : Item.CanGoOn taken
    · obtain ⟨hreaches, more, hprefix, hitems, hend⟩ := next_records hb hreads hj hkeeps h hgoes
      rw [Source.filter_behind hdates hall hgoes] at hprefix hend
      obtain ⟨rest', hrest⟩ := hprefix
      rw [← hrest, ← List.append_assoc] at hall
      refine ⟨taken ++ more, rest', ⟨hreaches, ?_, ?_⟩, hall, ?_⟩
      · rw [hall]
        exact Leaves.of_append (taken ++ more) rest'
      · rw [takenUpTo_succ, h.items, hitems, List.map_append]
      · intro hok
        rw [← hrest] at hend
        exact List.self_eq_append_right.mp (hend hok).1
    · obtain ⟨hitems, hworld, words, hresult⟩ := next_refused hb hreads hj h hgoes
      refine ⟨taken, rest, ⟨?_, h.leaves, ?_⟩, hall, ?_⟩
      · rw [hworld]
        exact h.reaches
      · rw [takenUpTo_succ, hitems, List.append_nil, h.items]
      · intro hok
        rw [hok] at hresult
        cases hresult

end

/-- A job that ends well was set up, and its last run is the first one that ended well. -/
theorem execute_ok {β κ : Type} {r : Request} {registry : Registry β} {queue : Queue κ}
    {fresh : String} {world : World β κ} {c : Checkpoint}
    (h : (r.execute registry queue fresh world).result = .ok c) :
    ∃ job n, r.setUp registry queue (r.jobId.getD fresh) world.env.files = .ok job ∧
      (r.series false job world n).result = .ok () ∧
      (r.execute registry queue fresh world).items = r.takenUpTo job world n ∧
      ∀ k < n, ∃ f, (r.series false job world k).result = .error f := by
  rcases r.execute_cases registry queue fresh world with ⟨⟨f, hfailed⟩, -⟩ |
    ⟨job, n, hsetUp, hresult, hitems, -, hfailed⟩
  · rw [h] at hfailed
    cases hfailed
  · refine ⟨job, n, hsetUp, ?_, hitems, hfailed⟩
    rw [h] at hresult
    unfold Run.outcome at hresult
    split at hresult
    · assumption
    · cases hresult

/-- Whatever the queue refuses, with whatever archive and however often a job for the request
    may fail: if it ends well, the queue has taken all that the uninterrupted run takes. -/
def LosesNothing {β : Type} (r : Request) (registry : Registry β) (source : Source)
    (fresh : String) (env : Env β) : Prop :=
  ∀ (κ : Type) (queue : Queue κ) (own : κ) (archive : Option ArchiveArgs) (maxRetries : Nat),
    let attempt : Request := { r with archive, maxRetries }
    let e := attempt.execute registry queue fresh ⟨env, own⟩
    Route.select archive = .live → attempt.Keeps queue ⟨env.files, own⟩ source →
      ∀ c, e.result = .ok c → ∀ i ∈ (r.uninterrupted fresh env).items, i ∈ e.items

end Request

section

variable {β : Type} {r : Request} {registry : Registry β} {source : Source} {filters : Filters}
  {env : Env β}

/-- A request for records that are in the order of their dates loses nothing. -/
theorem Request.losesNothing_of_inDateOrder
    (hfind : registry.find? r.backend = some Lines.backend)
    (hreads : r.ReadsRecords source filters) (hsource : source.In env.files) (fresh : String)
    (h : ending (source.records filters) = .ok () →
      Item.InDateOrder (goods (source.records filters))) :
    r.LosesNothing registry source fresh env := by
  intro κ queue own archive maxRetries attempt e hlive hkeeps c hok i hi
  have hreads' : attempt.ReadsRecords source filters :=
    ⟨hreads.category, hlive, hreads.path, hreads.filters⟩
  have hkeeps : attempt.Keeps queue (⟨env, own⟩ : World β κ).store source := hkeeps
  obtain ⟨job, n, hsetUp, hresult, hitems, -⟩ := Request.execute_ok hok
  obtain ⟨hj, hid⟩ := Request.jobFor_of_setUp hsetUp hfind
  have hplain : (Lines.backend : Backend β).ReadsSources := Lines.backend_reads .sound
  have hending := Request.ending_of_series hplain hreads' hj hkeeps hresult
  obtain ⟨taken, rest, hprogress, hall, hend⟩ :=
    Request.series_prefix hplain hreads' hj hkeeps (h hending) n
  rw [hend hresult, List.append_nil] at hall
  obtain ⟨huninterrupted, -⟩ := Request.uninterrupted_records hreads fresh hsource
  rw [huninterrupted, hall] at hi
  have hitems : e.items = _ := hitems
  rw [hitems, hprogress.items, hid]
  exact hi

/-- The offset of a record is none of those of the records in front of it. -/
theorem Source.offset?_ne_of_append {before after : List Item}
    (hall : goods (source.records filters) = before ++ after) {i k : Item} (hi : i ∈ before)
    (hk : k ∈ after) : i.offset? ≠ k.offset? := by
  obtain ⟨offsets, hoffsets, -, hsorted⟩ := source.offsets_of_records filters
  have hpairs : ((before ++ after).map Item.offset?).Pairwise (· ≠ ·) := by
    rw [← hall, hoffsets, List.pairwise_map]
    exact hsorted.imp fun hlt heq => Int.ne_of_lt hlt (Option.some.inj heq)
  rw [List.pairwise_map, List.pairwise_append] at hpairs
  obtain ⟨-, -, hne⟩ := hpairs
  exact hne i hi k hk

/-- The request for a job that may fail twice and has no archive. -/
def Request.triedTwice (r : Request) : Request := { r with archive := none, maxRetries := 2 }

/-- A request for records of which one is dated before another in front of it loses it, if the
    push in between is refused. -/
theorem Request.inDateOrder_of_losesNothing
    (hfind : registry.find? r.backend = some Lines.backend) (hvalid : r.validate = .ok ())
    (hreads : r.ReadsRecords source filters) (hsource : source.In env.files) {fresh : String}
    (h : r.LosesNothing registry source fresh env)
    (hending : ending (source.records filters) = .ok ()) :
    Item.InDateOrder (goods (source.records filters)) := by
  intro before after hall hgoes t ht i hi updated hupdated
  rw [← Int.not_lt]
  intro hearly
  -- Refusing the push behind the items in front makes a run go on that passes the item over.
  have hskips : (filters.behind before).skipsItem i = true := by
    refine Filters.skipsItem_eq_true_iff.mpr ⟨t.toMillis, updated, ?_, hupdated, hearly⟩
    rw [Filters.behind, ht, Filters.fromMillis_since]
  have hfind' : registry.find? r.triedTwice.backend = some Lines.backend := hfind
  have hvalid' : r.triedTwice.validate = .ok () := hvalid
  have hreads' : r.triedTwice.ReadsRecords source filters :=
    ⟨hreads.category, rfl, hreads.path, hreads.filters⟩
  obtain ⟨⟨c, hok⟩, hitems⟩ := Request.execute_after_refusal hfind' hvalid' hreads' rfl hsource
    hall (List.ne_nil_of_mem hi) rfl hending hgoes "refused" fresh
  have hfirst : source.In (⟨env.files, .empty⟩ : Store Queue.Counted).files := hsource
  have hkeeps : r.triedTwice.Keeps (Queue.refusing [(before.length, .io "refused")])
      ⟨env.files, .empty⟩ source := Request.keeps_of_files (Queue.refusing_files _) rfl hfirst
  obtain ⟨huninterrupted, -⟩ := Request.uninterrupted_records hreads fresh hsource
  -- So the item would have to be among those that are taken in the end.
  have hin : i.tagged (r.jobId.getD fresh) ∈ (r.uninterrupted fresh env).items := by
    rw [huninterrupted, hall]
    exact List.mem_map_of_mem (List.mem_append_right before hi)
  have htaken : i.tagged (r.jobId.getD fresh) ∈ (r.triedTwice.execute registry
      (Queue.refusing [(before.length, .io "refused")]) fresh ⟨env, .empty⟩).items :=
    h Queue.Counted _ .empty none 2 rfl hkeeps c hok _ hin
  rw [hitems] at htaken
  obtain ⟨k, hk, htagged⟩ := List.mem_map.mp htaken
  rcases List.mem_append.mp hk with hk | hk
  · -- It is none of the items in front of the refusal, which have other offsets.
    have hoffset := congrArg Item.offset? htagged
    rw [Item.offset?_tagged, Item.offset?_tagged] at hoffset
    exact source.offset?_ne_of_append hall hk hi hoffset
  · -- And none of those that the second run wants, which are not dated too early.
    have hwanted := (List.mem_filter.mp hk).2
    have hsame := congrArg (filters.behind before).skipsItem htagged
    rw [Filters.skipsItem_tagged, Filters.skipsItem_tagged, hskips] at hsame
    rw [hsame] at hwanted
    cases hwanted

end

/-- Retries lose nothing exactly if the records that an uninterrupted run takes are in the order
    of their dates, or no run can end well because they end with an error. -/
theorem loses_nothing_iff {β : Type} {r : Request} {registry : Registry β} {source : Source}
    {filters : Filters} {env : Env β} (hfind : registry.find? r.backend = some Lines.backend)
    (hvalid : r.validate = .ok ()) (hreads : r.ReadsRecords source filters)
    (hsource : source.In env.files) (fresh : String) :
    r.LosesNothing registry source fresh env ↔
      ((r.uninterrupted fresh env).result = .ok () →
        Item.InDateOrder (r.uninterrupted fresh env).items) := by
  obtain ⟨hitems, hresult⟩ := Request.uninterrupted_records hreads fresh hsource
  rw [hitems, hresult, Item.inDateOrder_tagged]
  constructor
  · intro h hending
    exact Request.inDateOrder_of_losesNothing hfind hvalid hreads hsource h hending
  · intro h
    exact Request.losesNothing_of_inDateOrder hfind hreads hsource fresh h

/-- Of the two records the second one, which is dated before the first, can be lost. -/
theorem loses_record_dated_earlier :
    let registry : Registry Unit := ⟨[Lines.backend]⟩
    registry.find? readsLines.backend = some Lines.backend ∧ readsLines.validate = .ok () ∧
      readsLines.ReadsRecords twoRecordsSource ⟨none, 0⟩ ∧
      twoRecordsSource.In twoRecordsWorld.env.files ∧
      ¬ readsLines.LosesNothing registry twoRecordsSource "other" twoRecordsWorld.env := by
  intro registry
  have hreads : readsLines.ReadsRecords twoRecordsSource ⟨none, 0⟩ := ⟨rfl, rfl, rfl, rfl⟩
  have hsource : twoRecordsSource.In twoRecordsWorld.env.files := ⟨rfl, rfl⟩
  refine ⟨rfl, rfl, hreads, hsource, ?_⟩
  intro h
  have hok : (readsLines.uninterrupted "other" twoRecordsWorld.env).result.toBool = true := by
    decide +kernel
  have hresult : (readsLines.uninterrupted "other" twoRecordsWorld.env).result = .ok () := by
    generalize (readsLines.uninterrupted "other" twoRecordsWorld.env).result = result at hok
    cases result with
    | error e => cases hok
    | ok u => rfl
  have hfirst : Item.nextDate ((readsLines.uninterrupted "other" twoRecordsWorld.env).items.take 1)
      = some ⟨200, 0⟩ := by decide +kernel
  have hsecond : ((readsLines.uninterrupted "other" twoRecordsWorld.env).items.drop 1).map
      Item.updated? = [some 100] := by decide +kernel
  have hdates := (loses_nothing_iff rfl rfl hreads hsource "other").mp h hresult
  obtain ⟨i, rest, hdrop, hupdated, -⟩ := List.map_eq_cons_iff.mp hsecond
  have hgoes : Item.CanGoOn
      ((readsLines.uninterrupted "other" twoRecordsWorld.env).items.take 1) := by
    intro t ht
    rw [hfirst] at ht
    cases ht
    decide
  have hlate := hdates _ _ (List.take_append_drop 1 _).symm hgoes _ hfirst i
    (hdrop ▸ List.mem_cons_self ..) 100 hupdated
  revert hlate
  decide +kernel

end Harvest
