/-
  Harvest.Proofs.Job.Replays

  When a replay that is interrupted delivers what one does that is not. A run that goes on asks for
  the items of the lines behind that of the last item taken, of whatever origin, that are not dated
  before the latest of the items taken; but the items of a recording come in the order in which
  they were stored. If at every item the two agree, the queue takes what it would have taken of one
  run (`series_replays`). If they do not, refusing a single push behind that item loses an item or
  delivers one twice (`execute_after_refused_replay`), although the job ends well
  (`replays_alike_iff`).
-/
import Harvest.Proofs.Backend.Replaying
import Harvest.Proofs.Job.Lossless

namespace Harvest

/-! ## What a replay asks for when it goes on -/

namespace Item

/-- Wherever a replay can go on behind an item, and there are items behind it, it asks for just
    those: for none of the items in front, and for all behind. -/
def InReplayOrder (filters : Filters) (items : List Item) : Prop :=
  ∀ before i after n, items = before ++ i :: after → after ≠ [] → i.offset? = some n →
    CanGoOn (before ++ [i]) →
    (∀ k ∈ before ++ [i], (filters.goingOn (before ++ [i]) n).asks k = false) ∧
      ∀ k ∈ after, (filters.goingOn (before ++ [i]) n).asks k = true

/-- Leaving items out leaves those at the end if it leaves out all the others and none of them. -/
theorem filter_eq_end_iff {front rest : List Item} {p : Item → Bool} :
    (front ++ rest).filter p = rest ↔ (∀ k ∈ front, p k = false) ∧ ∀ k ∈ rest, p k = true := by
  rw [List.filter_append]
  constructor
  · intro h
    have hrest : ∀ k ∈ rest, p k = true := by
      intro k hk
      rw [← h, ← List.filter_append] at hk
      exact (List.mem_filter.mp hk).2
    rw [List.filter_eq_self.mpr hrest, List.append_left_eq_self, List.filter_eq_nil_iff] at h
    exact ⟨fun k hk => Bool.eq_false_iff.mpr (h k hk), hrest⟩
  · rintro ⟨hfront, hrest⟩
    have hnone : front.filter p = [] :=
      List.filter_eq_nil_iff.mpr fun k hk => Bool.eq_false_iff.mp (hfront k hk)
    rw [hnone, List.filter_eq_self.mpr hrest, List.nil_append]

/-- It may be told from items that are changed in something that makes no difference to what is
    left out. -/
theorem filter_eq_end_of_map {front rest : List Item} {p : Item → Bool} {g : Item → Item}
    (hp : ∀ k, p (g k) = p k)
    (h : (front ++ (front ++ rest).filter p).map g = (front ++ rest).map g) :
    (∀ k ∈ front, p k = false) ∧ ∀ k ∈ rest, p k = true := by
  have hsame : p ∘ g = p := funext hp
  have hend : ((front ++ rest).filter p).map g = rest.map g := by
    rw [List.map_append, List.map_append] at h
    exact List.append_cancel_left h
  rw [← hsame, ← List.filter_map, List.map_append, filter_eq_end_iff] at hend
  obtain ⟨hfront, hrest⟩ := hend
  constructor
  · intro k hk
    rw [← hp]
    exact hfront _ (List.mem_map_of_mem hk)
  · intro k hk
    rw [← hp]
    exact hrest _ (List.mem_map_of_mem hk)

end Item

section

variable {recording : Recording} {origin : Option String} {after : Option Calendar.Instant}
  {filters : Filters} {taken : List Item} {i : Item} {n : Int}

/-- Going on behind some of its items, a replay asks for no item that it did not ask for. -/
theorem Recording.asked_behind
    (htaken : ∀ k ∈ taken, k ∈ recording.asked origin after filters)
    (hlast : taken.getLast? = some i) (hoffset : i.offset? = some n) :
    recording.asked origin after (filters.goingOn taken n) =
      (recording.asked origin after filters).filter (filters.goingOn taken n).asks := by
  have hasked : ∀ k ∈ taken, filters.skipsItem k = false := by
    intro k hk
    obtain ⟨hk, hasks⟩ := List.mem_filter.mp (htaken k hk)
    obtain ⟨m, hm, -⟩ := offset_of_mem_items hk
    exact ((Filters.asks_eq_true_iff hm).mp hasks).1
  have hmarks : ∀ k ∈ taken, ∃ m, k.marks = .ok m :=
    fun k hk => marks_of_mem_items (List.mem_filter.mp (htaken k hk)).1
  have hnarrow := Filters.skipsItem_behind hmarks hasked
  -- The last item was asked for, so that the line to start at is now a later one.
  have hlater : filters.offset < n := by
    have hi := (List.mem_filter.mp (htaken i (List.mem_of_getLast? hlast))).2
    exact ((Filters.asks_eq_true_iff hoffset).mp hi).2
  unfold asked
  rw [List.filter_filter]
  refine List.filter_congr ?_
  intro k hk
  obtain ⟨m, hm, -⟩ := offset_of_mem_items hk
  rw [Bool.eq_iff_iff, Bool.and_eq_true, Filters.asks_eq_true_iff hm,
    Filters.asks_eq_true_iff hm, Filters.skipsItem_goingOn, Filters.offset_goingOn]
  constructor
  · rintro ⟨hskips, hline⟩
    have hkept : filters.skipsItem k = false := by
      rw [← Bool.not_eq_true]
      intro hearly
      have hskipped := hnarrow k hearly
      rw [hskips] at hskipped
      cases hskipped
    exact ⟨⟨hskips, hline⟩, hkept, by omega⟩
  · rintro ⟨hagain, -⟩
    exact hagain

/-- Behind some of the items of a recording, with others behind them, a run goes on with the rest
    of them, if they are in the order of a replay. -/
theorem Recording.asked_of_resumeArgs {args : Fields} {c : Checkpoint} {rest : List Item}
    (hdate : c.maxDate = none) (hnone : c.offset = none)
    (hargs : Filters.ofArgs args = .ok filters)
    (horder : Item.InReplayOrder filters (recording.asked origin after filters))
    (hall : recording.asked origin after filters = taken ++ rest) (hrest : rest ≠ [])
    (hgoes : Item.CanGoOn taken) :
    ∃ f, Filters.ofArgs ((c.recordAll taken).resumeArgs args) = .ok f ∧
      recording.asked origin after f = rest := by
  have htaken : ∀ k ∈ taken, k ∈ recording.asked origin after filters := by
    intro k hk
    rw [hall]
    exact List.mem_append_left rest hk
  cases hlast : taken.getLast? with
  | none =>
    -- Nothing was taken, and the run asks for what the first one asked for.
    rw [List.getLast?_eq_none_iff] at hlast
    subst hlast
    refine ⟨filters, ?_, hall⟩
    rw [Checkpoint.recordAll_nil, Source.resumeArgs_start hdate hnone, hargs]
  | some i =>
    have hi := (List.mem_filter.mp (htaken i (List.mem_of_getLast? hlast))).1
    obtain ⟨m, hm⟩ := marks_of_mem_items hi
    obtain ⟨n, hoffset, hpos⟩ := offset_of_mem_items hi
    refine ⟨_, Source.ofArgs_behind hdate hargs hlast hm hoffset (Int.le_of_lt hpos) hgoes, ?_⟩
    rw [Recording.asked_behind htaken hlast hoffset]
    obtain ⟨before, rfl⟩ := List.getLast?_eq_some_iff.mp hlast
    rw [hall]
    rw [List.append_assoc, List.singleton_append] at hall
    exact Item.filter_eq_end_iff.mpr (horder before i rest n hall hrest hoffset hgoes)

end

/-! ## One run -/

namespace Job

variable {β κ : Type} {j : Job β κ} {args : Fields} {archive : Option ArchiveArgs}
  {resume : Bool} {world : World β κ} {after : Option Calendar.Instant} {a : Archive}

/-- A run whose replay gives items passes them on. -/
theorem run_of_replay {items : Items β} {env : Env β}
    (hgate : j.gate.ensure world.env.files archive = .ok j.gate)
    (hroute : Route.select archive = .replay after) (ha : j.gate.archive = some a)
    (hreplay : j.backend.replay j.category (j.runArgs args resume) a after world.env =
      (.ok items, env)) :
    let p := j.outlet.forwardAll (items.tagged j.jobId env) (j.startPoint resume) world.queue
    j.run args archive resume world =
      ⟨p.result, { j with checkpoint := p.checkpoint }, p.items, p.world⟩ := by
  unfold run
  rw [hgate]
  dsimp only
  rw [Gate.items_replay hroute ha, hreplay]
  rfl

/-- A run whose replay is refused takes nothing. -/
theorem run_of_replay_error {e : BackendError} {env : Env β}
    (hgate : j.gate.ensure world.env.files archive = .ok j.gate)
    (hroute : Route.select archive = .replay after) (ha : j.gate.archive = some a)
    (hreplay : j.backend.replay j.category (j.runArgs args resume) a after world.env =
      (.error e, env)) :
    j.run args archive resume world =
      ⟨.error (.backend e), { j with checkpoint := j.startPoint resume }, [],
        { world with env }⟩ := by
  unfold run
  rw [hgate]
  dsimp only
  rw [Gate.items_replay hroute ha, hreplay]
  rfl

/-- Going on leaves the origin that is asked for. -/
theorem asksFor_runArgs {origin : Option String} (h : Lines.AsksFor args origin) (j : Job β κ)
    (resume : Bool) : Lines.AsksFor (j.runArgs args resume) origin := by
  unfold runArgs
  cases resume with
  | false => exact h
  | true =>
    rw [if_pos rfl]
    cases h with
    | all hnone =>
      refine .all ?_
      rw [Checkpoint.get?_resumeArgs _ _ (by decide) (by decide), hnone]
    | one hpath =>
      refine .one ?_
      rw [Checkpoint.requiredPath_resumeArgs, hpath]

end Job

namespace Request

/-- A request to replay a recording, with arguments that are accepted. -/
structure Replays (r : Request) (recording : Recording) (origin : Option String)
    (after : Option Calendar.Instant) (filters : Filters) : Prop where
  category : r.category = recordCategory
  archive : r.archive = some (.replay recording.path after)
  origin : Lines.AsksFor r.args origin
  filters : Filters.ofArgs r.args = .ok filters

variable {β κ : Type} {r : Request} {recording : Recording} {origin : Option String}
  {after : Option Calendar.Instant} {filters f : Filters} {queue : Queue κ} {j : Job β κ}
  {world : World β κ} {resume : Bool} {I : Store κ → Prop}

/-- The archive of the recording is open for the job. -/
theorem Replays.opened (h : r.Replays recording origin after filters) (hj : r.Ready j) :
    j.gate.archive = some recording.archive := by
  rw [hj.archive, h.archive]
  rfl

theorem Replays.route (h : r.Replays recording origin after filters) :
    Route.select r.archive = .replay after := by
  rw [h.archive]
  rfl

/-- A run whose filters are accepted passes on the items that are asked for. -/
theorem run_replays (hI : ∀ s, I s → recording.In s.files)
    (hreplays : r.Replays recording origin after filters)
    (hj : r.JobFor Lines.backend queue j) (hworld : I world.store)
    (hf : Filters.ofArgs (j.runArgs r.args resume) = .ok f) :
    ∃ d : Draw (Env β) (Except BackendError Item),
      d.Yields I false world.queue
        (((recording.asked origin after f).map .ok).map (Except.map fun i => i.tagged j.jobId)) ∧
      let p := Outlet.forwardAll ⟨queue, r.queue⟩ d (j.startPoint resume) world.queue
      j.run r.args r.archive resume world =
        ⟨p.result, { j with checkpoint := p.checkpoint }, p.items, p.world⟩ := by
  have horigin := Job.asksFor_runArgs hreplays.origin j resume
  obtain ⟨items, hreplay, hyields⟩ := Lines.replay_yields hI horigin hf after hworld
  have hbackend : j.backend.replay j.category (j.runArgs r.args resume) recording.archive after
      world.env = (.ok items, world.env) := by
    rw [hj.backend, hj.ready.category, hreplays.category]
    show (Lines.replay recordCategory _ _ _ _, world.env) = _
    rw [hreplay]
  have hrun := Job.run_of_replay (hj.ready.opened world.env.files) hreplays.route
    (hreplays.opened hj.ready) hbackend
  rw [hj.outlet] at hrun
  exact ⟨_, hyields.map fun i => i.tagged j.jobId, hrun⟩

/-- Of the items that are asked for the queue takes the first ones, and the run ends well exactly
    if these are all of them. -/
theorem replay_takes (hI : ∀ s, I s → recording.In s.files)
    (hpush : ∀ s payload, I s → I (queue.push r.queue payload s).2)
    (hreplays : r.Replays recording origin after filters)
    (hj : r.JobFor Lines.backend queue j) (hworld : I world.store)
    (hf : Filters.ofArgs (j.runArgs r.args resume) = .ok f) :
    I (j.run r.args r.archive resume world).world.store ∧
      ∃ taken rest, recording.asked origin after f = taken ++ rest ∧
        (j.run r.args r.archive resume world).items = taken.map (fun i => i.tagged j.jobId) ∧
        ((j.run r.args r.archive resume world).result = .ok () ↔ rest = []) := by
  obtain ⟨d, hyields, hrun⟩ := run_replays hI hreplays hj hworld hf
  obtain ⟨hgoods, hending⟩ := recording.goods_of_asked origin after f
  obtain ⟨hstore, hprefix, hall⟩ :=
    Outlet.forwardAll_yields hpush hyields (j.startPoint resume)
  have hends := Outlet.forwardAll_ends hpush hyields (j.startPoint resume)
  rw [goods_tagged, hgoods] at hprefix hall hends
  rw [ending_tagged, hending] at hall hends
  dsimp only at hrun
  rw [hrun]
  obtain ⟨taken, ⟨rest, hsplit⟩, hitems⟩ := List.prefix_map_iff.mp hprefix
  refine ⟨hstore, taken, rest, hsplit.symm, hitems, ?_⟩
  constructor
  · intro hok
    -- All were taken, so that there is none left.
    have hlength := congrArg List.length (hitems.symm.trans (hall hok).1)
    rw [← hsplit, List.length_map, List.length_map, List.length_append] at hlength
    exact List.length_eq_zero_iff.mp (by omega)
  · intro hnone
    rw [hnone, List.append_nil] at hsplit
    exact hends (by rw [← hsplit]; exact hitems)

/-- A queue that refuses nothing takes all items that are asked for. -/
theorem replay_accepted (hI : ∀ s, I s → recording.In s.files)
    (hpush : ∀ s payload, I s → I (queue.push r.queue payload s).2)
    (haccepts : ∀ s payload, I s → (queue.push r.queue payload s).1 = .ok ())
    (hreplays : r.Replays recording origin after filters)
    (hj : r.JobFor Lines.backend queue j) (hworld : I world.store)
    (hf : Filters.ofArgs (j.runArgs r.args resume) = .ok f) :
    (j.run r.args r.archive resume world).items =
        (recording.asked origin after f).map (fun i => i.tagged j.jobId) ∧
      (j.run r.args r.archive resume world).result = .ok () := by
  obtain ⟨d, hyields, hrun⟩ := run_replays hI hreplays hj hworld hf
  obtain ⟨hgoods, hending⟩ := recording.goods_of_asked origin after f
  have haccept : ∀ s payload, I s →
      ∃ t, queue.push r.queue payload s = (.ok (), t) ∧ I t := by
    intro s payload hs
    have hafter := hpush s payload hs
    have haccepted := haccepts s payload hs
    generalize queue.push r.queue payload s = p at hafter haccepted
    obtain ⟨result, t⟩ := p
    cases haccepted
    exact ⟨t, rfl, hafter⟩
  obtain ⟨hitems, hresult⟩ := Outlet.forwardAll_accepted haccept hyields (j.startPoint resume)
  rw [goods_tagged, hgoods] at hitems
  rw [ending_tagged, hending] at hresult
  dsimp only at hrun
  rw [hrun]
  exact ⟨hitems, hresult⟩

/-- A run whose filters are refused takes nothing, and does not end well. -/
theorem replay_refused {e : BackendError} (hreplays : r.Replays recording origin after filters)
    (hj : r.JobFor Lines.backend queue j) (world : World β κ)
    (hf : Filters.ofArgs (j.runArgs r.args resume) = .error e) :
    (j.run r.args r.archive resume world).items = [] ∧
      (j.run r.args r.archive resume world).world = world ∧
      (j.run r.args r.archive resume world).result = .error (.backend e) := by
  have hbackend : j.backend.replay j.category (j.runArgs r.args resume) recording.archive after
      world.env = (.error e, world.env) := by
    rw [hj.backend, hj.ready.category, hreplays.category]
    show (Lines.replay recordCategory _ _ _ _, world.env) = _
    rw [Lines.replay_of_refused hf]
  rw [Job.run_of_replay_error (hj.ready.opened world.env.files) hreplays.route
    (hreplays.opened hj.ready) hbackend]
  exact ⟨rfl, rfl, rfl⟩

/-! ## The runs of a replay -/

/-- If the items are in the order of a replay, the runs up to the first one that ends well take
    the first of them, and that one the last. -/
theorem series_replays (hI : ∀ s, I s → recording.In s.files)
    (hpush : ∀ s payload, I s → I (queue.push r.queue payload s).2)
    (hreplays : r.Replays recording origin after filters)
    (hj : r.JobFor Lines.backend queue j) (hworld : I world.store)
    (horder : Item.InReplayOrder filters (recording.asked origin after filters)) (n : Nat)
    (hfailed : ∀ k < n, ∃ e, (r.series false j world k).result = .error e) :
    I (r.series false j world n).world.store ∧
      ∃ taken rest, recording.asked origin after filters = taken ++ rest ∧
        r.takenUpTo j world n = taken.map (fun i => i.tagged j.jobId) ∧
        ((r.series false j world n).result = .ok () ↔ rest = []) := by
  -- As long as a prefix is taken, what is left is all that the next run asks for.
  induction n with
  | zero =>
    have hf : Filters.ofArgs (j.runArgs r.args false) = .ok filters := hreplays.filters
    obtain ⟨hstore, taken, rest, hall, hitems, hend⟩ :=
      replay_takes hI hpush hreplays hj hworld hf
    exact ⟨hstore, taken, rest, hall, (takenUpTo_zero r j world).trans hitems, hend⟩
  | succ n ih =>
    obtain ⟨hstore, taken, rest, hall, hitems, hend⟩ := ih fun k hk => hfailed k (by omega)
    obtain ⟨e, he⟩ := hfailed n (Nat.lt_succ_self n)
    have hrest : rest ≠ [] := by
      intro hnone
      have hok := hend.mpr hnone
      rw [he] at hok
      cases hok
    obtain ⟨hj', hid⟩ := hj.series world n
    have hargs := series_runArgs hj.ready world n hitems
    rw [takenUpTo_succ, series_succ, hitems]
    by_cases hgoes : Item.CanGoOn taken
    · obtain ⟨f, hf, hleft⟩ := Recording.asked_of_resumeArgs
        (c := j.checkpoint.resumed (n + 1)) rfl rfl hreplays.filters horder hall hrest hgoes
      rw [← hargs] at hf
      obtain ⟨hstore', more, rest', hsplit, hmore, hend'⟩ :=
        replay_takes hI hpush hreplays hj' hstore hf
      rw [hleft] at hsplit
      rw [hid] at hmore
      refine ⟨hstore', taken ++ more, rest', ?_, ?_, hend'⟩
      · rw [hall, hsplit, List.append_assoc]
      · rw [hmore, List.map_append]
    · obtain ⟨words, hrefused⟩ := Source.resumeArgs_refused
        (c := j.checkpoint.resumed (n + 1)) rfl hgoes r.args
      rw [← hargs] at hrefused
      obtain ⟨hnone, hsame, hresult⟩ := replay_refused hreplays hj'
        (r.series false j world n).world hrefused
      refine ⟨?_, taken, rest, hall, ?_, ?_⟩
      · rw [hsame]
        exact hstore
      · rw [hnone, List.append_nil]
      · rw [hresult]
        simp [hrest]

end Request

/-! ## One refusal -/

namespace Request

section

variable {β : Type} {r : Request} {registry : Registry β} {recording : Recording}
  {origin : Option String} {after : Option Calendar.Instant} {filters : Filters} {env : Env β}
  {front rest : List Item}

variable (hreplays : r.Replays recording origin after filters)
  (hrecording : recording.In env.files)
  (hall : recording.asked origin after filters = front ++ rest) (hrest : rest ≠ [])

include hreplays hrecording hall hrest

/-- The first run ends with the refusal, behind the items in front of it. -/
theorem first_replay_refused {e : QueueError} {job : Job β Queue.Counted}
    (hj : r.JobFor Lines.backend (Queue.refusing [(front.length, e)]) job) :
    let run := r.series false job ⟨env, .empty⟩ 0
    run.items = front.map (fun i => i.tagged job.jobId) ∧ run.result = .error (.queue e) ∧
      recording.In run.world.env.files ∧ run.world.queue.pushes = front.length + 1 := by
  intro run
  let I : Store Queue.Counted → Prop := fun s => recording.In s.files
  have hpush : ∀ s payload, I s →
      I ((Queue.refusing [(front.length, e)]).push r.queue payload s).2 := by
    intro s payload hs
    show recording.In _
    rw [Queue.refusing_files]
    exact hs
  have hI : ∀ s, I s → recording.In s.files := fun s hs => hs
  have hf : Filters.ofArgs (job.runArgs r.args false) = .ok filters := hreplays.filters
  have hstart : I (⟨env, .empty⟩ : World β Queue.Counted).store := hrecording
  obtain ⟨d, hyields, hrun⟩ := run_replays hI hreplays hj hstart hf
  obtain ⟨hgoods, -⟩ := recording.goods_of_asked origin after filters
  have hitems : goods (((recording.asked origin after filters).map .ok).map
      (Except.map fun i => i.tagged job.jobId)) =
      front.map (fun i => i.tagged job.jobId) ++ rest.map fun i => i.tagged job.jobId := by
    rw [goods_tagged, hgoods, hall, List.map_append]
  have hmore : (rest.map fun i => i.tagged job.jobId) ≠ [] := by simpa using hrest
  have hkept := (Outlet.forwardAll_yields hpush hyields (job.startPoint false)).1
  obtain ⟨htaken, hresult, hpushes⟩ := Outlet.forwardAll_refused_behind hpush hyields hitems
    (List.length_map _) hmore (job.startPoint false)
  have hrun : run = _ := hrun
  rw [hrun]
  exact ⟨htaken, hresult, hkept, hpushes⟩

/-- The second run takes all that it asks for. -/
theorem second_replay_accepted {e : QueueError} {job : Job β Queue.Counted}
    (hj : r.JobFor Lines.backend (Queue.refusing [(front.length, e)]) job) {i : Item} {n : Int}
    (hlast : front.getLast? = some i) (hoffset : i.offset? = some n)
    (hgoes : Item.CanGoOn front) :
    let run := r.series false job ⟨env, .empty⟩ 1
    run.items = ((recording.asked origin after filters).filter
        (filters.goingOn front n).asks).map (fun i => i.tagged job.jobId) ∧
      run.result = .ok () := by
  intro run
  obtain ⟨hitems, -, hkept, hpushes⟩ :=
    first_replay_refused hreplays hrecording hall hrest hj
  have hfront : ∀ k ∈ front, k ∈ recording.asked origin after filters := by
    intro k hk
    rw [hall]
    exact List.mem_append_left rest hk
  have hi := (List.mem_filter.mp (hfront i (List.mem_of_getLast? hlast))).1
  obtain ⟨m, hm⟩ := Recording.marks_of_mem_items hi
  obtain ⟨n', hoffset', hpos⟩ := Recording.offset_of_mem_items hi
  rw [hoffset] at hoffset'
  cases hoffset'
  obtain ⟨hj', hid⟩ := hj.series ⟨env, .empty⟩ 0
  have htaken := (takenUpTo_zero r job ⟨env, .empty⟩).trans hitems
  have hargs := series_runArgs hj.ready ⟨env, .empty⟩ 0 htaken
  have hdate : (job.checkpoint.resumed (0 + 1)).maxDate = none := rfl
  have hf := Source.ofArgs_behind hdate hreplays.filters hlast hm hoffset
    (Int.le_of_lt hpos) hgoes
  rw [← hargs] at hf
  -- From here on no push has the number that is refused.
  let I : Store Queue.Counted → Prop :=
    fun s => recording.In s.files ∧ front.length < s.own.pushes
  have hpush : ∀ s payload, I s →
      I ((Queue.refusing [(front.length, e)]).push r.queue payload s).2 := by
    rintro s payload ⟨hs, hless⟩
    refine ⟨?_, ?_⟩
    · rw [Queue.refusing_files]
      exact hs
    · rw [Queue.refusing_pushes]
      exact Nat.lt_succ_of_lt hless
  have haccepts : ∀ s payload, I s →
      ((Queue.refusing [(front.length, e)]).push r.queue payload s).1 = .ok () := by
    rintro s payload ⟨-, hless⟩
    rw [Queue.refusing_push_accepted (Nat.ne_of_gt hless)]
  have hstart : I (r.series false job ⟨env, .empty⟩ 0).world.store :=
    ⟨hkept, Nat.lt_of_lt_of_eq (Nat.lt_succ_self _) hpushes.symm⟩
  obtain ⟨hmore, hresult⟩ :=
    replay_accepted (fun s hs => hs.1) hpush haccepts hreplays hj' hstart hf
  rw [Recording.asked_behind hfront hlast hoffset, hid] at hmore
  have hrun : run = _ := series_succ r false job ⟨env, .empty⟩ 0
  rw [hrun]
  exact ⟨hmore, hresult⟩

/-- A replay that may fail twice ends well behind a single refusal, with what its second run asks
    for. -/
theorem execute_after_refused_replay (hfind : registry.find? r.backend = some Lines.backend)
    (hvalid : r.validate = .ok ())
    (hopen : Archive.openAt env.files ⟨recording.path⟩ = .ok recording.archive)
    (hretries : r.maxRetries = 2) {i : Item} {n : Int} (hlast : front.getLast? = some i)
    (hoffset : i.offset? = some n) (hgoes : Item.CanGoOn front) (words fresh : String) :
    let e := r.execute registry (Queue.refusing [(front.length, .io words)]) fresh ⟨env, .empty⟩
    (∃ c, e.result = .ok c) ∧
      e.items = (front ++ (recording.asked origin after filters).filter
        (filters.goingOn front n).asks).map fun i => i.tagged (r.jobId.getD fresh) := by
  intro e
  have hgate : Gate.openFor env.files r.archive = .ok ⟨some recording.archive⟩ := by
    rw [hreplays.archive]
    exact Gate.openFor_of_openAt hopen
  have hfirst : ∀ job : Job β Queue.Counted,
      r.JobFor Lines.backend (Queue.refusing [(front.length, .io words)]) job →
      (r.series false job ⟨env, .empty⟩ 0).result = .error (.queue (.io words)) := by
    intro job hj
    obtain ⟨-, hresult, -⟩ := first_replay_refused hreplays hrecording hall hrest hj
    exact hresult
  have hsecond : ∀ job : Job β Queue.Counted,
      r.JobFor Lines.backend (Queue.refusing [(front.length, .io words)]) job →
      (r.series false job ⟨env, .empty⟩ 1).result = .ok () := by
    intro job hj
    obtain ⟨-, hresult⟩ :=
      second_replay_accepted hreplays hrecording hall hrest hj hlast hoffset hgoes
    exact hresult
  obtain ⟨job, hj, hid, hok, htaken⟩ :=
    execute_of_refusal (Queue.refusing [(front.length, .io words)]) ⟨env, .empty⟩ hfind hvalid
      hgate hretries hfirst hsecond fresh
  obtain ⟨hitems, -⟩ := first_replay_refused hreplays hrecording hall hrest hj
  obtain ⟨hmore, -⟩ :=
    second_replay_accepted hreplays hrecording hall hrest hj hlast hoffset hgoes
  refine ⟨hok, ?_⟩
  have htaken : e.items = _ := htaken
  rw [htaken, takenUpTo_succ, takenUpTo_zero, hitems, hmore, ← hid, List.map_append]

end

end Request

/-! ## Interrupted and uninterrupted replays -/

/-- Whether an item is asked for does not depend on its tag. -/
theorem Filters.asks_tagged (f : Filters) (i : Item) (job : String) :
    f.asks (i.tagged job) = f.asks i := by
  unfold asks
  rw [skipsItem_tagged, Item.offset?_tagged]

/-- A queue leaves a recording what it is. -/
def Queue.KeepsRecording {κ : Type} (queue : Queue κ) (name : String) (recording : Recording) :
    Prop :=
  ∀ s payload, recording.In s.files → recording.In (queue.push name payload s).2.files

namespace Request

section

variable {β : Type}

/-- A job to replay a recording, with a queue that refuses nothing. -/
def replayJob (r : Request) (fresh : String) (recording : Recording) : Job β Memory :=
  { r.plainJob fresh with gate := ⟨some recording.archive⟩ }

/-- One replay for a request, which nothing interrupts. -/
def uninterruptedReplay (r : Request) (fresh : String) (recording : Recording) (env : Env β) :
    Run β Memory :=
  (r.replayJob fresh recording).run r.args r.archive false ⟨env, .empty⟩

/-- Whatever the queue refuses, and however often a job for the request may fail: if it ends well,
    the queue has taken what it takes of the uninterrupted replay, in the same order. -/
def ReplaysAlike (r : Request) (registry : Registry β) (recording : Recording) (fresh : String)
    (env : Env β) : Prop :=
  ∀ (κ : Type) (queue : Queue κ) (own : κ) (maxRetries : Nat),
    let attempt : Request := { r with maxRetries }
    let e := attempt.execute registry queue fresh ⟨env, own⟩
    queue.KeepsRecording r.queue recording → ∀ c, e.result = .ok c →
      e.items = (r.uninterruptedReplay fresh recording env).items

variable {r : Request} {registry : Registry β} {recording : Recording}
  {origin : Option String} {after : Option Calendar.Instant} {filters : Filters} {env : Env β}

/-- The uninterrupted replay gives all items that are asked for, and ends well. -/
theorem uninterruptedReplay_items (hreplays : r.Replays recording origin after filters)
    (hrecording : recording.In env.files) (fresh : String) :
    (r.uninterruptedReplay fresh recording env).items =
        (recording.asked origin after filters).map (fun i => i.tagged (r.jobId.getD fresh)) ∧
      (r.uninterruptedReplay fresh recording env).result = .ok () := by
  have hjob : r.JobFor Lines.backend Queue.memory (r.replayJob fresh recording : Job β Memory) := by
    refine ⟨⟨?_, ?_, rfl⟩, rfl, rfl, rfl⟩
    · rw [hreplays.archive]
      exact Gate.ensure_of_archive rfl
    · rw [hreplays.archive]
      rfl
  let I : Store Memory → Prop := fun s => recording.In s.files
  have hI : ∀ s, I s → recording.In s.files := fun s hs => hs
  have hpush : ∀ s payload, I s → I (Queue.memory.push r.queue payload s).2 :=
    fun s payload hs => hs
  have haccepts : ∀ s payload, I s → (Queue.memory.push r.queue payload s).1 = .ok () :=
    fun s payload hs => rfl
  have hstart : I (⟨env, .empty⟩ : World β Memory).store := hrecording
  have hf : Filters.ofArgs ((r.replayJob fresh recording : Job β Memory).runArgs r.args false) =
      .ok filters := hreplays.filters
  exact replay_accepted hI hpush haccepts hreplays hjob hstart hf

/-- If its items are in the order of a replay, interrupting it makes no difference. -/
theorem replaysAlike_of_inReplayOrder (hfind : registry.find? r.backend = some Lines.backend)
    (hreplays : r.Replays recording origin after filters) (hrecording : recording.In env.files)
    (fresh : String) (h : Item.InReplayOrder filters (recording.asked origin after filters)) :
    r.ReplaysAlike registry recording fresh env := by
  intro κ queue own maxRetries attempt e hqueue c hok
  have hreplays' : attempt.Replays recording origin after filters :=
    ⟨hreplays.category, hreplays.archive, hreplays.origin, hreplays.filters⟩
  obtain ⟨job, n, hsetUp, hresult, hitems, hfailed⟩ := execute_ok hok
  obtain ⟨hj, hid⟩ := jobFor_of_setUp hsetUp hfind
  have hstart : recording.In (⟨env, own⟩ : World β κ).store.files := hrecording
  have hpush : ∀ s payload, recording.In s.files →
      recording.In (queue.push attempt.queue payload s).2.files := hqueue
  obtain ⟨-, taken, rest, hall, htaken, hend⟩ :=
    series_replays (I := fun s => recording.In s.files) (fun s hs => hs) hpush hreplays' hj
      hstart h n hfailed
  rw [hend.mp hresult, List.append_nil] at hall
  obtain ⟨huninterrupted, -⟩ := uninterruptedReplay_items hreplays hrecording fresh
  have hitems : e.items = _ := hitems
  rw [hitems, htaken, huninterrupted, hall, hid]

/-- If its items are not in the order of a replay, refusing a push where it goes on to other items
    than those behind makes a difference. -/
theorem inReplayOrder_of_replaysAlike (hfind : registry.find? r.backend = some Lines.backend)
    (hvalid : r.validate = .ok ()) (hreplays : r.Replays recording origin after filters)
    (hopen : Archive.openAt env.files ⟨recording.path⟩ = .ok recording.archive)
    (hrecording : recording.In env.files) {fresh : String}
    (h : r.ReplaysAlike registry recording fresh env) :
    Item.InReplayOrder filters (recording.asked origin after filters) := by
  intro before i rest n hall hrest hoffset hgoes
  have hsplit : recording.asked origin after filters = (before ++ [i]) ++ rest := by
    rw [hall, List.append_assoc, List.singleton_append]
  let attempt : Request := { r with maxRetries := 2 }
  have hreplays' : attempt.Replays recording origin after filters :=
    ⟨hreplays.category, hreplays.archive, hreplays.origin, hreplays.filters⟩
  have hfind' : registry.find? attempt.backend = some Lines.backend := hfind
  have hvalid' : attempt.validate = .ok () := hvalid
  have hlast : (before ++ [i]).getLast? = some i := List.getLast?_concat
  obtain ⟨⟨c, hok⟩, hitems⟩ := execute_after_refused_replay hreplays' hrecording hsplit hrest
    hfind' hvalid' hopen rfl hlast hoffset hgoes "refused" fresh
  have hkeeps : (Queue.refusing [((before ++ [i]).length, .io "refused")]).KeepsRecording
      r.queue recording := by
    intro s payload hs
    rw [Queue.refusing_files]
    exact hs
  have halike := h Queue.Counted _ .empty 2 hkeeps c hok
  have hitems : (attempt.execute registry
      (Queue.refusing [((before ++ [i]).length, .io "refused")]) fresh
      (⟨env, .empty⟩ : World β Queue.Counted)).items = _ := hitems
  obtain ⟨huninterrupted, -⟩ := uninterruptedReplay_items hreplays hrecording fresh
  rw [hitems, huninterrupted, hsplit] at halike
  exact Item.filter_eq_end_of_map (fun k => Filters.asks_tagged _ k _) halike

end

end Request

/-- The uninterrupted replay of a recording takes the items that are asked for. Interrupting it
    makes no difference exactly if they are in the order of a replay: if wherever it can go on, it
    asks for the items behind and no others. -/
theorem replays_alike_iff {β : Type} {r : Request} {registry : Registry β} {recording : Recording}
    {origin : Option String} {after : Option Calendar.Instant} {filters : Filters} {env : Env β}
    (hfind : registry.find? r.backend = some Lines.backend) (hvalid : r.validate = .ok ())
    (hreplays : r.Replays recording origin after filters)
    (hopen : Archive.openAt env.files ⟨recording.path⟩ = .ok recording.archive)
    (hrecording : recording.In env.files) (fresh : String) :
    (r.uninterruptedReplay fresh recording env).items =
        (recording.asked origin after filters).map (fun i => i.tagged (r.jobId.getD fresh)) ∧
      (r.ReplaysAlike registry recording fresh env ↔
        Item.InReplayOrder filters (recording.asked origin after filters)) := by
  obtain ⟨hitems, -⟩ := Request.uninterruptedReplay_items hreplays hrecording fresh
  refine ⟨hitems, ?_, ?_⟩
  · intro h
    exact Request.inReplayOrder_of_replaysAlike hfind hvalid hreplays hopen hrecording h
  · intro h
    exact Request.replaysAlike_of_inReplayOrder hfind hreplays hrecording fresh h

/-- The responses of two records, each of which is on the first line of a file of its own. -/
def twoOrigins : Bytes :=
  ["\x7b\"category\":\"item\",", "\"origin\":\"a.jsonl\",", "\"archived_at\":",
    "\"2024-01-01T00:00:00Z\",", "\"payload\":\x7b\"line\":0,", "\"record\":\x7b\"id\":\"a\",",
    "\"updated\":100\x7d\x7d\x7d\n",
    "\x7b\"category\":\"item\",", "\"origin\":\"b.jsonl\",", "\"archived_at\":",
    "\"2024-01-01T00:00:00Z\",", "\"payload\":\x7b\"line\":0,", "\"record\":\x7b\"id\":\"b\",",
    "\"updated\":100\x7d\x7d\x7d\n"].flatMap Utf8.ofString

theorem twoOrigins_isContent : Recording.isContent twoOrigins = true := by decide +kernel

/-- The recording of the two records. -/
def twoOriginsRecording : Recording :=
  .ofContent "arch" ["arch", "item.jsonl"] twoOrigins twoOrigins_isContent

/-- The world of the archive, with nothing else in it. -/
def twoOriginsWorld : Env Unit :=
  ⟨⟨[(["arch"], .directory), (["arch", "item.jsonl"], .file twoOrigins)], []⟩,
    ⟨fun _ => ⟨0, 0⟩, 0⟩, ()⟩

/-- A request to replay the two records. -/
def replaysBoth : Request :=
  { Request.make "task" recordsName recordCategory with
    jobId := some "job", archive := some (.replay "arch" none) }

/-- Of two records on the first lines of different files the second one is lost, if its push is
    refused once. -/
theorem loses_record_of_other_origin :
    let registry : Registry Unit := ⟨[Lines.backend]⟩
    registry.find? replaysBoth.backend = some Lines.backend ∧ replaysBoth.validate = .ok () ∧
      replaysBoth.Replays twoOriginsRecording none none ⟨none, 0⟩ ∧
      Archive.openAt twoOriginsWorld.files ⟨twoOriginsRecording.path⟩ =
        .ok twoOriginsRecording.archive ∧
      twoOriginsRecording.In twoOriginsWorld.files ∧
      ¬ replaysBoth.ReplaysAlike registry twoOriginsRecording "other" twoOriginsWorld := by
  intro registry
  have hreplays : replaysBoth.Replays twoOriginsRecording none none ⟨none, 0⟩ :=
    ⟨rfl, rfl, .all rfl, rfl⟩
  have hopen : Archive.openAt twoOriginsWorld.files ⟨twoOriginsRecording.path⟩ =
      .ok twoOriginsRecording.archive := rfl
  have hcontent : ∀ content : Bytes,
      FileTree.content ⟨[(["arch"], .directory), (["arch", "item.jsonl"], .file content)], []⟩
        ["arch", "item.jsonl"] = .ok content := fun content => rfl
  have hrecording : twoOriginsRecording.In twoOriginsWorld.files := ⟨rfl, hcontent _⟩
  refine ⟨rfl, rfl, hreplays, hopen, hrecording, ?_⟩
  intro h
  have horder := (replays_alike_iff rfl rfl hreplays hopen hrecording "other").2.mp h
  let items := twoOriginsRecording.asked none none ⟨none, 0⟩
  have hoffsets : items.map Item.offset? = [some 1, some 1] := by decide +kernel
  have hdate : Item.nextDate (items.take 1) = some ⟨100, 0⟩ := by decide +kernel
  have hsecond : (items.drop 1).map (Filters.asks (Filters.goingOn ⟨none, 0⟩ (items.take 1) 1)) =
      [false] := by decide +kernel
  obtain ⟨first, rest, hitems, hfirst, hrest⟩ := List.map_eq_cons_iff.mp hoffsets
  obtain ⟨second, more, rfl, -, -⟩ := List.map_eq_cons_iff.mp hrest
  rw [hitems] at hdate hsecond
  have hgoes : Item.CanGoOn ([] ++ [first]) := by
    intro t ht
    have hsame : Item.nextDate ([] ++ [first]) = some ⟨100, 0⟩ := hdate
    rw [hsame] at ht
    cases ht
    decide
  obtain ⟨-, hasked⟩ := horder [] first (second :: more) 1 hitems (List.cons_ne_nil _ _) hfirst
    hgoes
  have hyes := hasked second List.mem_cons_self
  have hno : (Filters.goingOn ⟨none, 0⟩ [first] 1).asks second = false :=
    (List.cons.inj hsecond).1
  rw [List.nil_append, hno] at hyes
  cases hyes

end Harvest
