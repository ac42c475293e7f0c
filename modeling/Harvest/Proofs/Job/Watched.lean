/-
  Harvest.Proofs.Job.Watched

  Backends that are watched: beside what a backend keeps for itself stands the list of all that
  it was asked. Watching a backend changes nothing of what it does (`forwardAll_watched`,
  `run_watched`), so that the list tells what executing a request asks of its backend.
-/
import Harvest.Backend.Scripted
import Harvest.Job.Execution
import Harvest.Proofs.Job.Gate

namespace Harvest

open Scripted (Call)

/-! ## Watching -/

/-- The world of a backend with a list beside what the backend keeps. -/
def Env.pair {β τ : Type} (env : Env β) (calls : τ) : Env (β × τ) :=
  ⟨env.files, env.clock, env.own, calls⟩

/-- The world of a backend without the list. -/
def Env.plain {β τ : Type} (env : Env (β × τ)) : Env β := ⟨env.files, env.clock, env.own.1⟩

@[simp] theorem Env.files_pair {β τ : Type} (env : Env β) (calls : τ) :
    (env.pair calls).files = env.files := rfl

/-- The world of a job with a list beside what its backend keeps. -/
def World.pair {β κ τ : Type} (world : World β κ) (calls : τ) : World (β × τ) κ :=
  ⟨world.env.pair calls, world.queue⟩

/-- A stream that is being drawn, in worlds with a list that drawing leaves alone. -/
def Draw.watched {β τ α : Type} : Draw (Env β) α → τ → Draw (Env (β × τ)) α
  | .stop env, calls => .stop (env.pair calls)
  | .item a env rest, calls =>
    .item a (env.pair calls) fun env => (rest env.plain).watched env.own.2

/-- A stream in worlds with a list that drawing leaves alone. -/
def Items.watched {β τ : Type} (items : Items β) : Items (β × τ) :=
  fun env => (items env.plain).watched env.own.2

/-- An opening in a world with a list. -/
def Opening.watched {β τ : Type} (opened : Opening β) (calls : τ) : Opening (β × τ) :=
  (opened.1.map Items.watched, opened.2.pair calls)

/-- The backend, which enters all that it is asked in a list. -/
def Backend.watched {β : Type} (b : Backend β) : Backend (β × List Call) where
  name := b.name
  categories := b.categories
  archiving := b.archiving
  resuming := b.resuming
  fetch category args archive env :=
    Opening.watched (b.fetch category args archive env.plain)
      (env.own.2 ++ [⟨false, category, args, archive.map Archive.path, none⟩])
  replay category args archive after env :=
    Opening.watched (b.replay category args archive after env.plain)
      (env.own.2 ++ [⟨true, category, args, some archive.path, after⟩])

/-- The registry, whose backends enter all that they are asked in a list. -/
def Registry.watched {β : Type} (r : Registry β) : Registry (β × List Call) :=
  ⟨r.backends.map Backend.watched⟩

theorem Registry.find?_watched {β : Type} (r : Registry β) (name : String) :
    r.watched.find? name = (r.find? name).map Backend.watched := by
  obtain ⟨bs⟩ := r
  show (bs.map Backend.watched).find? _ = _
  rw [List.find?_map]
  rfl

/-! ## Runs of watched backends -/

/-- Passing on the items of a stream does the same whether it is watched or not. -/
theorem Outlet.forwardAll_watched {β κ τ : Type} (outlet : Outlet κ)
    (d : Draw (Env β) (Except BackendError Item)) (c : Checkpoint) (own : κ) (calls : τ) :
    let plain := outlet.forwardAll d c own
    outlet.forwardAll (d.watched calls) c own =
      ⟨plain.result, plain.checkpoint, plain.items, plain.world.pair calls⟩ := by
  induction d generalizing c own with
  | stop env => rfl
  | item r env rest ih =>
    cases r with
    | error e => rfl
    | ok item =>
      unfold Draw.watched forwardAll
      rw [Env.files_pair]
      generalize outlet.forward item c ⟨env.files, own⟩ = f
      obtain ⟨result, after⟩ := f
      cases result with
      | error e => rfl
      | ok c' =>
        have hrest := ih { env with files := after.files } c' after.own
        dsimp only at hrest ⊢
        rw [show rest (Env.plain { env.pair calls with files := after.files }) =
          rest { env with files := after.files } from rfl]
        rw [show Prod.snd (Env.own { env.pair calls with files := after.files }) = calls from rfl]
        rw [hrest]
        rfl

/-- Tagging a stream does the same whether it is watched or not. -/
theorem Items.tagged_watched {β τ : Type} (items : Items β) (job : String) (env : Env β)
    (calls : τ) :
    items.watched.tagged job (env.pair calls) = (items.tagged job env).watched calls := by
  show ((items env).watched calls).map _ = ((items env).map _).watched calls
  generalize items env = d
  induction d generalizing calls with
  | stop env => rfl
  | item r env rest ih =>
    unfold Draw.watched Draw.map
    congr 1
    funext env'
    exact ih env'.plain env'.own.2

/-- What a gate asks of a backend with a category and arguments. -/
def Gate.call (g : Gate) (category : String) (args : Fields) (archive : Option ArchiveArgs) :
    Call :=
  match Route.select archive with
  | .live => ⟨false, category, args, g.archive.map Archive.path, none⟩
  | .replay after => ⟨true, category, args, g.archive.map Archive.path, after⟩

/-- A gate that has an archive wherever one is to be replayed asks its backend exactly once for
    the items of a run. -/
theorem Gate.items_watched {β : Type} {g : Gate} {archive : Option ArchiveArgs}
    (hreplay : archive.isSome = true → g.archive.isSome = true) (b : Backend β) (category : String)
    (args : Fields) (env : Env β) (calls : List Call) :
    let plain := g.items b category args archive env
    g.items b.watched category args archive (env.pair calls) =
      (plain.1.map Items.watched, plain.2.pair (calls ++ [g.call category args archive])) := by
  unfold Gate.call
  cases hroute : Route.select archive with
  | live =>
    have hfetch : b.watched.fetch category args g.archive (env.pair calls) =
        Opening.watched (b.fetch category args g.archive env)
          (calls ++ [⟨false, category, args, g.archive.map Archive.path, none⟩]) := rfl
    rw [items_live hroute, items_live hroute, hfetch]
    generalize b.fetch category args g.archive env = opened
    obtain ⟨opened, after⟩ := opened
    cases opened with
    | error e => rfl
    | ok items => rfl
  | replay after =>
    cases harchive : g.archive with
    | none =>
      -- Without arguments there is nothing to replay.
      cases archive with
      | none => cases hroute
      | some args =>
        rw [harchive] at hreplay
        cases hreplay rfl
    | some a =>
      have hasked : b.watched.replay category args a after (env.pair calls) =
          Opening.watched (b.replay category args a after env)
            (calls ++ [⟨true, category, args, some a.path, after⟩]) := rfl
      rw [items_replay hroute harchive, items_replay hroute harchive, hasked]
      generalize b.replay category args a after env = opened
      obtain ⟨opened, env'⟩ := opened
      cases opened with
      | error e => rfl
      | ok items => rfl

/-- The job, whose backend enters all that it is asked in a list. -/
def Job.watched {β κ : Type} (j : Job β κ) : Job (β × List Call) κ :=
  { j with backend := j.backend.watched }

/-- The run, whose backend was watched. -/
def Run.watched {β κ : Type} (run : Run β κ) (calls : List Call) : Run (β × List Call) κ :=
  ⟨run.result, run.job.watched, run.items, run.world.pair calls⟩

namespace Job

variable {β κ : Type}

/-- A run that can open its archive asks its backend exactly once, and does the same whether it is
    watched or not. -/
theorem run_watched {j : Job β κ} {archive : Option ArchiveArgs} {world : World β κ} {gate : Gate}
    (hgate : j.gate.ensure world.env.files archive = .ok gate) (args : Fields) (resume : Bool)
    (calls : List Call) :
    j.watched.run args archive resume (world.pair calls) =
      (j.run args archive resume world).watched
        (calls ++ [gate.call j.category (j.runArgs args resume) archive]) := by
  unfold run
  rw [show j.watched.gate = j.gate from rfl,
    show (world.pair calls).env = world.env.pair calls from rfl, Env.files_pair, hgate]
  dsimp only
  rw [show j.watched.backend = j.backend.watched from rfl,
    show j.watched.category = j.category from rfl,
    show j.watched.runArgs args resume = j.runArgs args resume from rfl,
    Gate.items_watched (Gate.isSome_of_asked hgate)]
  generalize gate.items j.backend j.category (j.runArgs args resume) archive world.env = opened
  obtain ⟨opened, env⟩ := opened
  cases opened with
  | error e => rfl
  | ok items =>
    dsimp only [Except.map]
    rw [Items.tagged_watched, show j.watched.outlet = j.outlet from rfl,
      show j.watched.jobId = j.jobId from rfl,
      show (world.pair calls).queue = world.queue from rfl,
      show j.watched.startPoint resume = j.startPoint resume from rfl,
      Outlet.forwardAll_watched]
    rfl

end Job

end Harvest
