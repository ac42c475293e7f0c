/-
  Harvest.Proofs.Job.Verdict

  Which errors of the backend for files of records are fatal is a matter of what it is asked, and
  of nothing else. `Lines.Accepts` says without looking at any world which categories and arguments
  are accepted. The others are refused with an error of configuration before anything is looked at
  (`Lines.ask_of_not_accepts`); with those that are accepted, neither the start of a fetch or a
  replay nor anything that is drawn from it afterwards is such an error, whatever becomes of the
  world in between (`Lines.ask_error`, `Lines.ask_drawn`). So the backend error of a run is fatal
  in all worlds or in none (`fatal_by_arguments`).
-/
import Harvest.Proofs.Job.Fatal

namespace Harvest

/-! ## What is accepted -/

/-- What a backend can be asked for: items to be fetched now, which may go into an archive, or
    those that an archive keeps. -/
inductive Asking where
  | fetch (archive : Option Archive)
  | replay (archive : Archive) (after : Option Calendar.Instant)

/-- Whether it is something that was archived that is asked for. -/
def Asking.replays : Asking → Bool
  | .fetch _ => false
  | .replay _ _ => true

/-- Asks a backend for the items of a category. -/
def Backend.ask {β : Type} (b : Backend β) (category : String) (args : Fields) :
    Asking → Env β → Opening β
  | .fetch archive, env => b.fetch category args archive env
  | .replay archive after, env => b.replay category args archive after env

namespace Lines

/-- A category with arguments that are accepted. -/
structure Accepts (replays : Bool) (category : String) (args : Fields) : Prop where
  category : category = recordCategory
  /-- The path is a text that is not empty, and only a replay may do without one. -/
  path : (∃ p, args.get? pathArgument = some (.string p) ∧ p ≠ "") ∨
    (replays = true ∧ args.get? pathArgument = none)
  /-- The date may be missing, and is a date and time of RFC 3339 otherwise. -/
  date : ∀ v, args.get? dateArgument = some v →
    v = .null ∨ ∃ s t, v = .string s ∧ Calendar.Instant.ofStrict s.toList = .ok t
  /-- The line may be missing, and is a whole number of sixty-four bits otherwise. -/
  line : ∀ v, args.get? offsetArgument = some v →
    v = .null ∨ ∃ n, v = .ofInt n ∧ 0 ≤ n ∧ n ≤ Number.greatestSigned64

end Lines

/-! ## Arguments, one by one -/

theorem checkCategory_error {name : String} {categories : List String} {category : String}
    {e : BackendError} (h : checkCategory name categories category = .error e) :
    e.isConfiguration = true := by
  unfold checkCategory at h
  split at h
  · cases h
  · cases h
    rfl

theorem checkCategory_eq_ok_iff {category : String} :
    checkCategory recordsName [recordCategory] category = .ok () ↔ category = recordCategory := by
  simp [checkCategory]

theorem requiredPath_error {args : Fields} {e : BackendError} (h : requiredPath args = .error e) :
    e.isConfiguration = true := by
  unfold requiredPath at h
  split at h
  · cases h
    rfl
  · split at h <;> cases h
    rfl
  · cases h
    rfl

theorem requiredPath_eq_ok_iff {args : Fields} {path : String} :
    requiredPath args = .ok path ↔
      args.get? pathArgument = some (.string path) ∧ path ≠ "" := by
  unfold requiredPath
  split
  · simp [*]
  · next p hp =>
    simp only [hp, Option.some.injEq, Json.string.injEq]
    grind
  · next other hnot hother =>
    simp [hother]
    grind

namespace Filters

theorem dateOf_eq_ok_iff {args : Fields} :
    (∃ date, dateOf args = .ok date) ↔ ∀ v, args.get? dateArgument = some v →
      v = .null ∨ ∃ s t, v = .string s ∧ Calendar.Instant.ofStrict s.toList = .ok t := by
  unfold dateOf
  split
  · simp [*]
  · simp [*]
  · next s hs =>
    cases hstrict : Calendar.Instant.ofStrict s.toList with
    | ok t => simp [hs, hstrict]
    | error f => simp [hs, hstrict]
  · next other hnull hstring hother =>
    simp [hother]
    grind

theorem offsetOf_eq_ok_iff {args : Fields} :
    (∃ line, offsetOf args = .ok line) ↔ ∀ v, args.get? offsetArgument = some v →
      v = .null ∨ ∃ n, v = .ofInt n ∧ 0 ≤ n ∧ n ≤ Number.greatestSigned64 := by
  unfold offsetOf
  split
  · simp [*]
  · simp [*]
  · next v hnull hv =>
    cases hn : v.asInt64? with
    | none =>
      -- Otherwise the value would have been read as that number.
      have hnone : ∀ n, v = .ofInt n → 0 ≤ n → ¬ n ≤ Number.greatestSigned64 := by
        intro n hv hpos hfits
        rw [hv, Json.asInt64?_ofInt hpos hfits] at hn
        cases hn
      simp only [hv, Option.some.injEq]
      grind
    | some n =>
      obtain ⟨rfl, -, hfits⟩ := Json.asInt64?_eq_some_iff.mp hn
      by_cases hpos : 0 ≤ n
      · simp [hv, hpos, hfits]
      · simp [hv, hpos]

/-- Arguments are accepted exactly if both filters among them are. -/
theorem ofArgs_accepted_iff {args : Fields} :
    (∃ f, ofArgs args = .ok f) ↔
      (∃ date, dateOf args = .ok date) ∧ ∃ line, offsetOf args = .ok line := by
  constructor
  · rintro ⟨f, hf⟩
    obtain ⟨hdate, hline⟩ := ofArgs_eq_ok_iff.mp hf
    exact ⟨⟨_, hdate⟩, _, hline⟩
  · rintro ⟨⟨date, hdate⟩, line, hline⟩
    exact ⟨⟨date, line⟩, ofArgs_eq_ok_iff.mpr ⟨hdate, hline⟩⟩

end Filters

/-! ## Starting -/

namespace Lines

variable {β κ : Type} {category : String} {args : Fields}

/-- A fetch is accepted if its category, its path and its filters are. -/
theorem accepts_fetch_iff :
    Accepts false category args ↔ category = recordCategory ∧
      (∃ path, requiredPath args = .ok path) ∧ ∃ f, Filters.ofArgs args = .ok f := by
  rw [Filters.ofArgs_accepted_iff, Filters.dateOf_eq_ok_iff, Filters.offsetOf_eq_ok_iff]
  simp only [requiredPath_eq_ok_iff]
  constructor
  · intro h
    refine ⟨h.category, ?_, h.date, h.line⟩
    simpa using h.path
  · rintro ⟨hcategory, hpath, hdate, hline⟩
    exact ⟨hcategory, .inl hpath, hdate, hline⟩

/-- A replay is accepted if its category and its filters are, and it asks for no wrong path. -/
theorem accepts_replay_iff :
    Accepts true category args ↔ category = recordCategory ∧
      (∃ f, Filters.ofArgs args = .ok f) ∧ ∃ origin, AsksFor args origin := by
  rw [Filters.ofArgs_accepted_iff, Filters.dateOf_eq_ok_iff, Filters.offsetOf_eq_ok_iff]
  constructor
  · intro h
    refine ⟨h.category, ⟨h.date, h.line⟩, ?_⟩
    rcases h.path with ⟨p, hp⟩ | ⟨-, hnone⟩
    · exact ⟨some p, .one (requiredPath_eq_ok_iff.mpr hp)⟩
    · exact ⟨none, .all hnone⟩
  · rintro ⟨hcategory, ⟨hdate, hline⟩, origin, horigin⟩
    refine ⟨hcategory, ?_, hdate, hline⟩
    cases horigin with
    | all hnone => exact .inr ⟨rfl, hnone⟩
    | one hpath => exact .inl ⟨_, requiredPath_eq_ok_iff.mp hpath⟩

/-- A fetch that is not accepted is refused with one and the same error of configuration in all
    worlds. What is wrong first is told, in the order in which the arguments are looked at. -/
theorem fetch_of_not_accepts (h : ¬ Accepts false category args) :
    ∃ e : BackendError, e.isConfiguration = true ∧
      ∀ (archive : Option Archive) (env : Env β) (disk : Disk β),
        fetch category args archive env disk = .error e := by
  -- If all the checks are passed, the arguments are accepted after all.
  cases hcategory : checkCategory recordsName [recordCategory] category with
  | error e => exact ⟨e, checkCategory_error hcategory, fun _ _ _ => bind_of_error hcategory _⟩
  | ok u =>
    have hsame := checkCategory_eq_ok_iff.mp hcategory
    cases hpath : requiredPath args with
    | error e =>
      refine ⟨e, requiredPath_error hpath, fun _ _ _ => ?_⟩
      exact (bind_of_ok hcategory _).trans (bind_of_error hpath _)
    | ok path =>
      cases hfilters : Filters.ofArgs args with
      | error e =>
        refine ⟨e, Filters.ofArgs_error hfilters, fun archive env disk => ?_⟩
        rw [hsame]
        exact fetch_of_refused hpath hfilters archive env disk
      | ok f => exact absurd (accepts_fetch_iff.mpr ⟨hsame, ⟨path, hpath⟩, f, hfilters⟩) h

/-- So is a replay that is not accepted. -/
theorem replay_of_not_accepts (h : ¬ Accepts true category args) :
    ∃ e : BackendError, e.isConfiguration = true ∧
      ∀ (a : Archive) (after : Option Calendar.Instant) (env : Env β),
        replay category args a after env = .error e := by
  cases hcategory : checkCategory recordsName [recordCategory] category with
  | error e => exact ⟨e, checkCategory_error hcategory, fun _ _ _ => bind_of_error hcategory _⟩
  | ok u =>
    have hsame := checkCategory_eq_ok_iff.mp hcategory
    cases hfilters : Filters.ofArgs args with
    | error e =>
      refine ⟨e, Filters.ofArgs_error hfilters, fun _ _ _ => ?_⟩
      rw [hsame]
      exact replay_of_refused hfilters _
    | ok f =>
      cases hgiven : args.get? pathArgument with
      | none => exact absurd (accepts_replay_iff.mpr ⟨hsame, ⟨f, hfilters⟩, _, .all hgiven⟩) h
      | some v =>
        cases hpath : requiredPath args with
        | error e =>
          refine ⟨e, requiredPath_error hpath, fun _ _ _ => ?_⟩
          unfold replay
          refine (bind_of_ok hcategory _).trans ?_
          refine (bind_of_ok hfilters _).trans ?_
          rw [hgiven]
          exact bind_of_error hpath _
        | ok path =>
          exact absurd (accepts_replay_iff.mpr ⟨hsame, ⟨f, hfilters⟩, _, .one hpath⟩) h

/-- What is not accepted is refused with one and the same error of configuration in all worlds,
    which stay as they are, and on all disks. -/
theorem ask_of_not_accepts {replays : Bool} (h : ¬ Accepts replays category args) :
    ∃ e : BackendError, e.isConfiguration = true ∧
      ∀ (disk : Disk β) (asking : Asking) (env : Env β), asking.replays = replays →
        (Lines.backend disk).ask category args asking env = (.error e, env) := by
  cases replays with
  | false =>
    obtain ⟨e, he, hfetch⟩ := fetch_of_not_accepts (β := β) h
    refine ⟨e, he, ?_⟩
    rintro disk (archive | ⟨a, after⟩) env hasking
    · exact congrArg (·, env) (hfetch archive env disk)
    · cases hasking
  | true =>
    obtain ⟨e, he, hreplay⟩ := replay_of_not_accepts (β := β) h
    refine ⟨e, he, ?_⟩
    rintro disk (archive | ⟨a, after⟩) env hasking
    · cases hasking
    · exact congrArg (·, env) (hreplay a after env)

end Lines

/-! ## Going on -/

/-- A result that is an item, or an error that is none of the arguments. -/
def Transient (r : Except BackendError Item) : Prop :=
  ∀ e, r = .error e → e.isConfiguration = false

theorem Resumable.transient {r : Except BackendError Item} (h : Resumable r) : Transient r := by
  rintro e rfl
  exact h

/-- Whatever becomes of an archive, what is read of it is no matter of configuration, and reading
    keeps every invariant. -/
theorem Archive.unfold_transient {β κ : Type} {I : Store κ → Prop}
    (after : Option Calendar.Instant) (fuel : Nat) (reading : Reading) {env : Env β} {own : κ}
    (hstart : I ⟨env.files, own⟩) :
    (Feed.unfold (advance after) fuel reading env).Gives I
      (fun reply => ∀ e, reply = .error e → e.isConfiguration = false) own := by
  induction fuel generalizing reading env own with
  | zero => exact .stop hstart
  | succ fuel ih =>
    unfold Feed.unfold advance
    cases reading.lines env.files with
    | error f => exact .item hstart (by rintro e ⟨⟩; rfl) fun _ _ h => .stop h
    | ok lines =>
      have hnext := readLines_of_next? after lines
      dsimp only
      generalize next? after lines = found at hnext
      cases found with
      | none => exact .stop hstart
      | some reply =>
        cases reply with
        | error e =>
          have hmem : .error e ∈ readLines after lines := by
            rw [show readLines after lines = [.error e] from hnext]
            exact List.mem_singleton_self _
          refine .item hstart ?_ fun _ _ h => .stop h
          rintro e' ⟨⟩
          exact readLines_error_transient hmem
        | ok hit =>
          obtain ⟨r, rest⟩ := hit
          exact .item hstart (by rintro e ⟨⟩) fun env own henv => ih _ henv

/-- What is stored for what is asked keeps an invariant; a replay stores nothing. -/
def Asking.Keeps {κ : Type} (I : Store κ → Prop) (category : String) : Asking → Prop
  | .fetch archive => Lines.StoringKeeps I category archive
  | .replay _ _ => True

theorem Asking.keeps_true {κ : Type} (asking : Asking) (category : String) :
    asking.Keeps (fun _ : Store κ => True) category := by
  cases asking with
  | fetch archive => exact fun _ _ _ _ _ => trivial
  | replay a after => trivial

namespace Lines

variable {β κ : Type} {disk : Disk β} {I : Store κ → Prop} {category : String} {args : Fields}

/-- Asking leaves the world as it is. -/
theorem ask_env (disk : Disk β) (category : String) (args : Fields) (asking : Asking)
    (env : Env β) : ((Lines.backend disk).ask category args asking env).2 = env := by
  cases asking <;> rfl

/-- A replay with arguments that are accepted fails if the archive cannot be opened, and otherwise
    makes items of what is read of it. -/
theorem replay_cases {origin : Option String} {filters : Filters}
    (horigin : AsksFor args origin) (hfilters : Filters.ofArgs args = .ok filters) (a : Archive)
    (after : Option Calendar.Instant) (env : Env β) :
    (∃ e, e.isConfiguration = false ∧
      replay recordCategory args a after env = .error (.archive e)) ∨
    ∃ fuel reading, replay recordCategory args a after env =
      .ok (Feed.filterMap (replayed origin filters)
        (Feed.unfold (Archive.advance after) fuel reading)) := by
  rw [replay_of_accepted horigin hfilters]
  simp only [Archive.responses]
  split
  · next e he =>
    refine .inl ⟨e, ?_, rfl⟩
    split at he <;> cases he
    rfl
  · next feed hfeed =>
    refine .inr ?_
    split at hfeed <;> cases hfeed
    -- A category without a file is read as one without lines.
    · exact ⟨0, ⟨[], 0⟩, rfl⟩
    · exact ⟨_, _, rfl⟩

/-- What is accepted may fail, but with no error of its arguments. -/
theorem ask_error {asking : Asking} (h : Accepts asking.replays category args) {env : Env β}
    {e : BackendError} (he : ((Lines.backend disk).ask category args asking env).1 = .error e) :
    e.isConfiguration = false := by
  cases asking with
  | fetch archive =>
    obtain ⟨rfl, ⟨path, hpath⟩, f, hfilters⟩ := accepts_fetch_iff.mp h
    rcases fetch_cases hpath hfilters archive env with ⟨words, hfetch⟩ | ⟨place, hfetch⟩
    · cases hfetch.symm.trans he
      rfl
    · cases hfetch.symm.trans he
  | replay a after =>
    obtain ⟨rfl, ⟨f, hfilters⟩, origin, horigin⟩ := accepts_replay_iff.mp h
    rcases replay_cases horigin hfilters a after env with ⟨e', he', hreplay⟩ | ⟨_, _, hreplay⟩
    · cases hreplay.symm.trans he
      exact he'
    · cases hreplay.symm.trans he

/-- No error that is drawn from a stream is one of the arguments, whatever the world is at each
    draw, every item is made of a record, and an invariant that storing in the archive keeps is
    kept. -/
theorem ask_drawn {asking : Asking} (hkeeps : asking.Keeps I category) {env later : Env β}
    {items : Items β}
    (hitems : ((Lines.backend disk).ask category args asking env).1 = .ok items)
    {own : κ} (hstart : I ⟨later.files, own⟩) :
    (items later).Gives I (fun r => Transient r ∧ Made r) own := by
  by_cases haccepts : Accepts asking.replays category args
  · cases asking with
    | fetch archive =>
      obtain ⟨rfl, ⟨path, hpath⟩, f, hfilters⟩ := accepts_fetch_iff.mp haccepts
      rcases fetch_cases hpath hfilters archive env with ⟨words, hfetch⟩ | ⟨place, hfetch⟩
      · cases hfetch.symm.trans hitems
      · cases hfetch.symm.trans hitems
        have hzero : (0 : Int) ≤ 0 := Int.le_refl 0
        let task : Task := ⟨path, recordCategory, f, archive⟩
        have hgives : (Feed.unfold (advance disk task) (env.files.lineBound place)
            ⟨⟨place, 0⟩, 0⟩ later).Gives I (fun r => Resumable r ∧ Made r) own :=
          unfold_gives task hkeeps _ hzero hstart
        exact hgives.imp fun r hr => ⟨hr.1.transient, hr.2⟩
    | replay a after =>
      obtain ⟨rfl, ⟨f, hfilters⟩, origin, horigin⟩ := accepts_replay_iff.mp haccepts
      rcases replay_cases horigin hfilters a after env with
        ⟨e, -, hreplay⟩ | ⟨fuel, reading, hreplay⟩
      · cases hreplay.symm.trans hitems
      · cases hreplay.symm.trans hitems
        refine (Archive.unfold_transient after fuel reading hstart).filterMap ?_
        intro reply result hreply hresult
        constructor
        · rintro e rfl
          exact replayed_error hreply hresult
        · rintro i rfl
          obtain ⟨r, line, -, -, hshaped⟩ := replayed_eq_ok hresult
          exact ⟨_, hshaped⟩
  · -- What is refused has no stream.
    obtain ⟨e, -, hask⟩ := ask_of_not_accepts (β := β) haccepts
    rw [hask disk asking env rfl] at hitems
    cases hitems

end Lines

/-! ## Runs -/

/-- What a gate asks its backend for, unless an archive is to be replayed and there is none. -/
def Gate.asking? (g : Gate) (archive : Option ArchiveArgs) : Option Asking :=
  match Route.select archive with
  | .live => some (.fetch g.archive)
  | .replay after => g.archive.map fun a => .replay a after

namespace Gate

variable {β κ : Type} {g : Gate} {archive : Option ArchiveArgs} {asking : Asking}

theorem items_of_asking? (h : g.asking? archive = some asking) (b : Backend β)
    (category : String) (args : Fields) (env : Env β) :
    g.items b category args archive env =
      ((b.ask category args asking env).1.mapError .backend,
        (b.ask category args asking env).2) := by
  unfold asking? at h
  split at h
  · next hroute =>
    cases h
    exact items_live hroute ..
  · next after hroute =>
    obtain ⟨a, ha, rfl⟩ := Option.map_eq_some_iff.mp h
    exact items_replay hroute ha ..

theorem items_of_asking?_none (h : g.asking? archive = none) (b : Backend β) (category : String)
    (args : Fields) (env : Env β) :
    ∃ words, g.items b category args archive env = (.error (.configuration words), env) := by
  unfold asking? at h
  split at h
  · cases h
  · next after hroute =>
    have ha := Option.map_eq_none_iff.mp h
    exact ⟨"archive replay requested without archive", by simp only [items, hroute, ha]⟩

/-- A gate asks for something archived exactly if the arguments for the archive do. -/
theorem replays_of_asking? (h : g.asking? archive = some asking) :
    asking.replays = archive.any ArchiveArgs.replays := by
  have hany : archive.any ArchiveArgs.replays = (Route.select archive != .live) := by
    cases archive with
    | none => rfl
    | some a =>
      simp only [Option.any_some, Route.select]
      cases a.replays <;> simp
  unfold asking? at h
  split at h
  · next hroute =>
    cases h
    simp [hany, hroute, Asking.replays]
  · next after hroute =>
    obtain ⟨a, -, rfl⟩ := Option.map_eq_some_iff.mp h
    simp [hany, hroute, Asking.replays]

theorem keeps_of_asking? (h : g.asking? archive = some asking) {I : Store κ → Prop}
    {category : String} (hkeeps : Lines.StoringKeeps I category g.archive) :
    asking.Keeps I category := by
  unfold asking? at h
  split at h
  · cases h
    exact hkeeps
  · obtain ⟨a, -, rfl⟩ := Option.map_eq_some_iff.mp h
    trivial

end Gate

namespace Job

variable {β κ : Type}

/-- What a run comes to that asks its backend for something: nothing if the backend fails, and
    otherwise what the items of the stream come to. -/
inductive Comes (j : Job β κ) (world : World β κ) : Opening β → Run β κ → Prop where
  | failed {e : BackendError} {env : Env β} {job : Job β κ} :
      Comes j world (.error e, env) ⟨.error (.backend e), job, [], { world with env }⟩
  | passed {items : Items β} {env : Env β} {start : Checkpoint} {job : Job β κ}
      {p : Passage β κ}
      (h : p = j.outlet.forwardAll (items.tagged j.jobId env) start world.queue) :
      Comes j world (.ok items, env) ⟨p.result, job, p.items, p.world⟩

/-- A run asks its backend for something, or fails before it can. -/
theorem run_comes (j : Job β κ) (args : Fields) (archive : Option ArchiveArgs) (resume : Bool)
    (world : World β κ) :
    let run := j.run args archive resume world
    (run.items = [] ∧ run.world = world ∧
      ((∃ fault, run.result = .error (.archive fault)) ∨
        ∃ words, run.result = .error (.configuration words))) ∨
      ∃ gate asking, j.gate.ensure world.env.files archive = .ok gate ∧
        gate.asking? archive = some asking ∧
        j.Comes world (j.backend.ask j.category (j.runArgs args resume) asking world.env) run := by
  cases hgate : j.gate.ensure world.env.files archive with
  | error e =>
    have hrun : j.run args archive resume world = _ := run_of_ensure_error hgate
    rw [hrun]
    obtain ⟨fault, rfl⟩ := Gate.ensure_error hgate
    exact .inl ⟨rfl, rfl, .inl ⟨fault, rfl⟩⟩
  | ok gate =>
    simp only [run, hgate]
    cases hasking : gate.asking? archive with
    | none =>
      obtain ⟨words, hitems⟩ := gate.items_of_asking?_none hasking j.backend j.category
        (j.runArgs args resume) world.env
      rw [hitems]
      exact .inl ⟨rfl, rfl, .inr ⟨words, rfl⟩⟩
    | some asking =>
      refine .inr ⟨gate, asking, rfl, hasking, ?_⟩
      rw [Gate.items_of_asking? hasking]
      generalize j.backend.ask j.category (j.runArgs args resume) asking world.env = opened
      obtain ⟨opened, env⟩ := opened
      cases opened with
      | error e => exact .failed
      | ok items => exact .passed rfl

/-- The error of a backend in a run is the one with which it failed, or one that was drawn from
    its stream. -/
theorem Comes.transient {j : Job β κ} {world : World β κ} {opened : Opening β} {run : Run β κ}
    (h : j.Comes world opened run)
    (hfailed : ∀ e, opened.1 = .error e → e.isConfiguration = false)
    (hdrawn : ∀ items, opened.1 = .ok items → ∀ (env : Env β) (own : κ),
      (items env).Gives (fun _ => True) Transient own)
    {e : BackendError} (he : run.result = .error (.backend e)) : e.isConfiguration = false := by
  cases h with
  | failed =>
    cases he
    exact hfailed e rfl
  | @passed items env start job p hp =>
    have htagged : (items.tagged j.jobId env).Gives (fun _ => True) Transient world.queue := by
      refine (hdrawn items rfl env world.queue).map ?_
      rintro r hr e' he'
      cases r with
      | error e => exact hr e' he'
      | ok i => cases he'
    have hpush : ∀ s payload, True → (fun _ : Store κ => True)
        (j.queue.push j.queueName payload s).2 := fun _ _ _ => trivial
    obtain ⟨-, -, hfatal⟩ := Outlet.forwardAll_gives hpush (fun e he => he e rfl) htagged start
    rw [hp] at he
    exact hfatal _ he

end Job

/-- A run that the backend for files of records is asked for with a category and arguments, to
    fetch or to replay. -/
structure Job.AsksLines {β κ : Type} (j : Job β κ) (given : Fields)
    (archive : Option ArchiveArgs) (resume : Bool) (replays : Bool) (category : String)
    (args : Fields) : Prop where
  backend : ∃ disk, j.backend = Lines.backend disk
  replays : archive.any ArchiveArgs.replays = replays
  category : j.category = category
  args : j.runArgs given resume = args

/-- Which errors are fatal for a category and arguments is the same in all worlds and on all
    disks. -/
structure Lines.FatalByArguments (β κ : Type) (replays : Bool) (category : String)
    (args : Fields) : Prop where
  /-- A fetch or a replay fails with an error of configuration exactly if it is not accepted. -/
  starts : ∀ (disk : Disk β) (asking : Asking) (env : Env β), asking.replays = replays →
    ((∃ e, ((Lines.backend disk).ask category args asking env).1 = .error e ∧
      e.isConfiguration = true) ↔ ¬ Lines.Accepts replays category args)
  /-- Then it fails with the same error in all worlds, and leaves them as they are. -/
  refused : ¬ Lines.Accepts replays category args → ∃ e : BackendError,
    ∀ (disk : Disk β) (asking : Asking) (env : Env β), asking.replays = replays →
      (Lines.backend disk).ask category args asking env = (.error e, env)
  /-- No error that is drawn from a stream is one of configuration, whatever becomes of the world
      between two draws. -/
  drawn : ∀ (disk : Disk β) (asking : Asking) (env later : Env β) (own : κ) (items : Items β),
    asking.replays = replays →
      ((Lines.backend disk).ask category args asking env).1 = .ok items →
        (items later).Gives (fun _ => True) Transient own
  /-- The error of the backend in a run is fatal exactly if what the run asks for is not accepted,
      and then the run takes nothing and leaves the world as it is. -/
  runs : ∀ (j : Job β κ) (given : Fields) (archive : Option ArchiveArgs) (resume : Bool)
    (world : World β κ), j.AsksLines given archive resume replays category args →
      let run := j.run given archive resume world
      (∀ e, run.result = .error (.backend e) →
        ((JobError.backend e).isFatal = true ↔ ¬ Lines.Accepts replays category args)) ∧
      (¬ Lines.Accepts replays category args → run.items = [] ∧ run.world = world)
  /-- So it is fatal in both of any two worlds, or in none of them. -/
  agree : ∀ (j j' : Job β κ) (given given' : Fields) (archive archive' : Option ArchiveArgs)
    (resume resume' : Bool) (world world' : World β κ) (e e' : BackendError),
    j.AsksLines given archive resume replays category args →
    j'.AsksLines given' archive' resume' replays category args →
    (j.run given archive resume world).result = .error (.backend e) →
    (j'.run given' archive' resume' world').result = .error (.backend e') →
    (JobError.backend e).isFatal = (JobError.backend e').isFatal

/-- The error of the backend in a run is fatal exactly if the run asks for what is not accepted. -/
theorem Job.AsksLines.fatal_iff {β κ : Type} {j : Job β κ} {given args : Fields}
    {archive : Option ArchiveArgs} {resume replays : Bool} {category : String}
    (h : j.AsksLines given archive resume replays category args) (world : World β κ) :
    let run := j.run given archive resume world
    (∀ e, run.result = .error (.backend e) →
      ((JobError.backend e).isFatal = true ↔ ¬ Lines.Accepts replays category args)) ∧
    (¬ Lines.Accepts replays category args → run.items = [] ∧ run.world = world) := by
  obtain ⟨⟨disk, hbackend⟩, rfl, rfl, rfl⟩ := h
  rcases j.run_comes given archive resume world with
    ⟨hitems, hworld, hother⟩ | ⟨gate, asking, -, hasking, hcomes⟩
  · -- A run that asks the backend for nothing has no error of it.
    refine ⟨?_, fun _ => ⟨hitems, hworld⟩⟩
    intro e he
    rcases hother with ⟨fault, hresult⟩ | ⟨words, hresult⟩
    · cases hresult.symm.trans he
    · cases hresult.symm.trans he
  · rw [hbackend] at hcomes
    rw [← Gate.replays_of_asking? hasking]
    by_cases haccepts : Lines.Accepts asking.replays j.category (j.runArgs given resume)
    · refine ⟨fun e he => ?_, fun hrefused => absurd haccepts hrefused⟩
      have htransient := hcomes.transient (fun e he => Lines.ask_error haccepts he)
        (fun items hitems env own =>
          (Lines.ask_drawn (asking.keeps_true _) hitems trivial).imp fun r hr => hr.1) he
      simp [JobError.isFatal, htransient, haccepts]
    · obtain ⟨error, hfatal, hask⟩ := Lines.ask_of_not_accepts (β := β) haccepts
      rw [hask disk asking world.env rfl] at hcomes
      generalize j.run given archive resume world = run at hcomes ⊢
      cases hcomes with
      | failed =>
        refine ⟨?_, fun _ => ⟨rfl, rfl⟩⟩
        rintro e ⟨⟩
        simp [JobError.isFatal, hfatal, haccepts]

/-- Whether an error of the backend for files of records is fatal depends on the category and the
    arguments that the backend is asked with, and on nothing in the world. -/
theorem fatal_by_arguments (β κ : Type) (replays : Bool) (category : String) (args : Fields) :
    Lines.FatalByArguments β κ replays category args := by
  constructor
  case starts =>
    rintro disk asking env rfl
    constructor
    · rintro ⟨e, he, hfatal⟩ haccepts
      rw [Lines.ask_error haccepts he] at hfatal
      cases hfatal
    · intro hrefused
      obtain ⟨e, hfatal, hask⟩ := Lines.ask_of_not_accepts (β := β) hrefused
      exact ⟨e, congrArg Prod.fst (hask disk asking env rfl), hfatal⟩
  case refused =>
    intro hrefused
    obtain ⟨e, -, hask⟩ := Lines.ask_of_not_accepts (β := β) hrefused
    exact ⟨e, hask⟩
  case drawn =>
    intro disk asking env later own items _ hitems
    exact (Lines.ask_drawn (asking.keeps_true category) hitems trivial).imp fun r hr => hr.1
  case runs =>
    intro j given archive resume world h
    exact h.fatal_iff world
  case agree =>
    intro j j' given given' archive archive' resume resume' world world' e e' h h' he he'
    have hfatal := (h.fatal_iff world).1 e he
    have hfatal' := (h'.fatal_iff world').1 e' he'
    rw [Bool.eq_iff_iff, hfatal, hfatal']

end Harvest
