/-
  Harvest.Proofs.Job.OpenArchive

  The archive that a gate has open. However often a gate is asked, and whatever becomes of the
  files in the meantime, it has the archive of the last question that it did not fail for
  (`HoldsLast`): each question keeps this so (`HoldsLast.after`), and so do any number of them.
  The gate of a job is asked once in each run, before anything else is, so that the backend is
  given the archive that the run names, and a replay never lacks one (`gate_holds_last_asked`).
-/
import Harvest.Proofs.Job.Delivery
import Harvest.Proofs.Job.Watched

namespace Harvest

open Scripted (Call)

/-! ## Gates that are asked again and again -/

/-- An archive is at a path: its own path has the same components. -/
def Archive.IsAt (a : Archive) (path : String) : Prop :=
  a.path.components = Path.components ⟨path⟩

namespace Gate

/-- What a gate is asked for, an archive or none, and the files at that moment. -/
structure Ask where
  files : FileTree
  archive : Option ArchiveArgs

/-- The gate after it was asked. A gate that fails is the gate that it was. -/
def after (g : Gate) (ask : Ask) : Gate :=
  match g.ensure ask.files ask.archive with
  | .ok gate => gate
  | .error _ => g

/-- The arguments that a gate answers to: those that it is asked with, unless it fails. -/
def answers (g : Gate) (ask : Ask) : List ArchiveArgs :=
  match g.ensure ask.files ask.archive with
  | .ok _ => ask.archive.toList
  | .error _ => []

/-- The arguments that a gate answers to when it is asked several times. -/
def answered (g : Gate) : List Ask → List ArchiveArgs
  | [] => []
  | ask :: asks => g.answers ask ++ (g.after ask).answered asks

section

variable {g gate : Gate} {args : ArchiveArgs} {before : List ArchiveArgs}

theorem after_of_ok (ask : Ask) (h : g.ensure ask.files ask.archive = .ok gate) :
    g.after ask = gate := by
  unfold after
  rw [h]

theorem after_of_error (ask : Ask) {e : JobError}
    (h : g.ensure ask.files ask.archive = .error e) : g.after ask = g := by
  unfold after
  rw [h]

/-- A gate that has the archive of the last arguments that it answered to, and none if it answered
    to none. Its archive is never that of an empty path. -/
structure HoldsLast (g : Gate) (answered : List ArchiveArgs) : Prop where
  none : answered = [] → g.archive = none
  last : ∀ args, answered.getLast? = some args → ∃ a, g.archive = some a ∧ a.IsAt args.path
  named : ∀ a, g.archive = some a → a.path.text ≠ ""

theorem holdsLast_shut : shut.HoldsLast [] := ⟨fun _ => rfl, nofun, nofun⟩

/-- A question keeps it so that a gate has the archive of the last arguments. -/
theorem HoldsLast.after (h : g.HoldsLast before) (ask : Ask) :
    (g.after ask).HoldsLast (before ++ g.answers ask) := by
  obtain ⟨files, archive⟩ := ask
  unfold Gate.after answers
  dsimp only
  cases archive with
  | none =>
    show g.HoldsLast (before ++ [])
    rw [List.append_nil]
    exact h
  | some args =>
    have hensures := g.ensures files args
    generalize g.ensure files (some args) = outcome at hensures
    cases hensures with
    | refused fault =>
      show g.HoldsLast (before ++ [])
      rw [List.append_nil]
      exact h
    | @kept a ha hsame =>
      refine ⟨fun hnil => absurd hnil (by simp), ?_, h.named⟩
      intro last hlast
      rw [Option.toList_some, List.getLast?_concat, Option.some.injEq] at hlast
      subst hlast
      exact ⟨a, ha, beq_iff_eq.mp hsame⟩
    | opened hother htext =>
      refine ⟨fun hnil => absurd hnil (by simp), ?_, ?_⟩
      · intro last hlast
        rw [Option.toList_some, List.getLast?_concat, Option.some.injEq] at hlast
        subst hlast
        exact ⟨_, rfl, rfl⟩
      · rintro _ ⟨⟩
        exact htext

/-- So do several questions. -/
theorem HoldsLast.afterAll (h : g.HoldsLast before) (asks : List Ask) :
    (asks.foldl Gate.after g).HoldsLast (before ++ g.answered asks) := by
  induction asks generalizing g before with
  | nil =>
    rw [answered, List.append_nil]
    exact h
  | cons ask asks ih =>
    rw [answered, ← List.append_assoc]
    exact ih (h.after ask)

/-- A gate that does not fail has the archive that it was asked for, and it is the one from before
    exactly if that one was at the same path. -/
theorem archive_of_ensure {files : FileTree} (h : g.ensure files (some args) = .ok gate) :
    ∃ a, gate.archive = some a ∧ a.IsAt args.path ∧
      (gate.archive = g.archive ↔ ∃ held, g.archive = some held ∧ held.IsAt args.path) := by
  have hensures := g.ensures files args
  rw [h] at hensures
  cases hensures with
  | @kept a ha hsame =>
    have hat : a.IsAt args.path := beq_iff_eq.mp hsame
    exact ⟨a, ha, hat, fun _ => ⟨a, ha, hat⟩, fun _ => rfl⟩
  | opened hother =>
    refine ⟨_, rfl, rfl, fun hkept => ⟨_, hkept.symm, rfl⟩, ?_⟩
    rintro ⟨held, hheld, hat⟩
    have hdiffers := hother held hheld
    rw [show held.path.same ⟨args.path⟩ = true from beq_iff_eq.mpr hat] at hdiffers
    cases hdiffers

end

end Gate

/-! ## The runs of a job -/

/-- What the gate of a job is asked in a run. -/
def RunCall.ask {β κ : Type} (call : RunCall β κ) : Gate.Ask :=
  ⟨call.world.env.files, call.archive⟩

namespace Job

variable {β κ : Type}

/-- A run asks the gate of the job once. -/
theorem gate_run (j : Job β κ) (call : RunCall β κ) :
    (j.run call.args call.archive call.resume call.world).job.gate = j.gate.after call.ask := by
  cases hgate : j.gate.ensure call.world.env.files call.archive with
  | error e =>
    rw [Gate.after_of_error call.ask hgate, run_of_ensure_error hgate]
  | ok gate =>
    rw [Gate.after_of_ok call.ask hgate]
    unfold run
    rw [hgate]
    dsimp only
    split
    · rfl
    · rfl

end Job

/-- The gate of a job is asked once in each of its runs. -/
theorem Ledger.gate_enterAll {β κ : Type} (l : Ledger β κ) (calls : List (RunCall β κ)) :
    (calls.foldl Ledger.enter l).job.gate =
      (calls.map RunCall.ask).foldl Gate.after l.job.gate := by
  induction calls generalizing l with
  | nil => rfl
  | cons call calls ih =>
    have hrun := l.job.gate_run call
    have hstep : (l.enter call).job.gate = l.job.gate.after call.ask := by
      unfold enter
      dsimp only
      split
      · exact hrun
      · split
        · exact hrun
        · exact hrun
    rw [List.foldl_cons, ih, hstep, List.map_cons, List.foldl_cons]

/-! ## What a run asks for -/

/-- What is passed on never ends with an error of configuration. -/
theorem Outlet.forwardAll_ne_configuration {β κ : Type} (outlet : Outlet κ)
    (d : Draw (Env β) (Except BackendError Item)) (c : Checkpoint) (own : κ) (words : String) :
    (outlet.forwardAll d c own).result ≠ .error (.configuration words) := by
  induction d generalizing c own with
  | stop env => exact nofun
  | item r env rest ih =>
    cases r with
    | error e => exact nofun
    | ok item =>
      have hpasses := outlet.forwardAll_passes item c env rest own
      generalize outlet.forwardAll (.item (.ok item) env rest) c own = p at hpasses ⊢
      cases hpasses with
      | unmarked hm =>
        rcases Item.marks_error_cases hm with ⟨-, rfl⟩ | ⟨uuid, -, -, rfl⟩
        · exact nofun
        · exact nofun
      | refused hm hp => exact nofun
      | accepted hm hp => exact ih _ _ _

/-- A gate that has an archive wherever one is to be replayed fails with errors of its backend
    only. -/
theorem Gate.items_ne_configuration {β : Type} {g : Gate} {archive : Option ArchiveArgs}
    (hreplay : archive.isSome = true → g.archive.isSome = true) (b : Backend β)
    (category : String) (args : Fields) (env : Env β) (words : String) :
    (g.items b category args archive env).1 ≠ .error (.configuration words) := by
  have hbackend : ∀ opened : Except BackendError (Items β),
      opened.mapError JobError.backend ≠ .error (.configuration words) := by
    intro opened
    cases opened with
    | error e => exact nofun
    | ok items => exact nofun
  cases hroute : Route.select archive with
  | live =>
    rw [items_live hroute]
    exact hbackend _
  | replay after =>
    cases archive with
    | none => cases hroute
    | some args' =>
      obtain ⟨a, ha⟩ := Option.isSome_iff_exists.mp (hreplay rfl)
      rw [items_replay hroute ha]
      exact hbackend _

/-- No run fails with an error of configuration. -/
theorem Job.run_ne_configuration {β κ : Type} (j : Job β κ) (args : Fields)
    (archive : Option ArchiveArgs) (resume : Bool) (world : World β κ) (words : String) :
    (j.run args archive resume world).result ≠ .error (.configuration words) := by
  unfold run
  cases hgate : j.gate.ensure world.env.files archive with
  | error e =>
    obtain ⟨fault, rfl⟩ := Gate.ensure_error hgate
    exact nofun
  | ok gate =>
    have hitems := Gate.items_ne_configuration (Gate.isSome_of_asked hgate) j.backend j.category
      (j.runArgs args resume) world.env words
    dsimp only
    generalize gate.items j.backend j.category (j.runArgs args resume) archive world.env = opened
      at hitems ⊢
    obtain ⟨opened, env⟩ := opened
    cases opened with
    | error e =>
      intro h
      cases h
      exact hitems rfl
    | ok items => exact j.outlet.forwardAll_ne_configuration _ _ _ words

/-- What a gate asks of a backend with the archive that it has. -/
theorem Gate.call_eq {g : Gate} {a : Archive} (ha : g.archive = some a) (category : String)
    (args : Fields) (archive : ArchiveArgs) :
    g.call category args (some archive) =
      ⟨archive.replays, category, args, some a.path,
        if archive.replays then archive.after else none⟩ := by
  obtain ⟨path, replays, after⟩ := archive
  unfold Gate.call Route.select
  rw [ha]
  cases replays with
  | false => rfl
  | true => rfl

/-- A run with an archive asks the backend once for its items, with the archive that is named, or
    fails to open the archive. -/
inductive Run.Asks {β κ : Type} (j : Job β κ) (call : RunCall β κ) (archive : ArchiveArgs) :
    Prop where
  /-- The archive cannot be opened: the backend is asked nothing, and the job and the world are as
      before. -/
  | refused (fault : ArchiveError)
      (hrun : j.run call.args call.archive call.resume call.world =
        ⟨.error (.archive fault), j, [], call.world⟩)
      (hwatched : ∀ calls,
        j.watched.run call.args call.archive call.resume (call.world.pair calls) =
          ⟨.error (.archive fault), j.watched, [], call.world.pair calls⟩)
  | asked (a : Archive) (hat : a.IsAt archive.path)
      (hheld : (j.run call.args call.archive call.resume call.world).job.gate.archive = some a)
      (hwatched : ∀ calls,
        j.watched.run call.args call.archive call.resume (call.world.pair calls) =
          (j.run call.args call.archive call.resume call.world).watched
            (calls ++ [⟨archive.replays, j.category, j.runArgs call.args call.resume,
              some a.path, if archive.replays then archive.after else none⟩]))

theorem Job.run_asks {β κ : Type} (j : Job β κ) {call : RunCall β κ} {archive : ArchiveArgs}
    (h : call.archive = some archive) : Run.Asks j call archive := by
  cases hgate : j.gate.ensure call.world.env.files call.archive with
  | error e =>
    obtain ⟨fault, rfl⟩ := Gate.ensure_error hgate
    refine .refused fault (run_of_ensure_error hgate) fun calls => ?_
    have hwatched : j.watched.gate.ensure (call.world.pair calls).env.files call.archive =
        .error (.archive fault) := hgate
    exact run_of_ensure_error hwatched
  | ok gate =>
    have hasked := hgate
    rw [h] at hasked
    obtain ⟨a, ha, hat, -⟩ := Gate.archive_of_ensure hasked
    refine .asked a hat ?_ fun calls => ?_
    · rw [j.gate_run, Gate.after_of_ok call.ask hgate, ha]
    · rw [run_watched hgate, h, Gate.call_eq ha]

/-- However often a gate was asked, and whatever became of the files between the questions, it has
    the archive of the last arguments that it did not fail for. Asked for nothing it stays as it is,
    and so it does where it fails; asked for an archive it has one at the path of that archive, and
    that is the one from before exactly if the one from before was at the path. So, whatever runs of
    a job with such a gate came before, a run with an archive asks the backend once, with the
    archive that is named, to fetch or to replay as the arguments say; and no run lacks an archive
    to replay. -/
theorem gate_holds_last_asked {β κ : Type} (asks : List Gate.Ask) :
    let g := asks.foldl Gate.after .shut
    g.HoldsLast (Gate.shut.answered asks) ∧
    (∀ files, g.ensure files none = .ok g) ∧
    (∀ ask e, g.ensure ask.files ask.archive = .error e → g.after ask = g) ∧
    (∀ files args gate, g.ensure files (some args) = .ok gate →
      ∃ a, gate.archive = some a ∧ a.IsAt args.path ∧
        (gate.archive = g.archive ↔ ∃ held, g.archive = some held ∧ held.IsAt args.path)) ∧
    ∀ (job : Job β κ) (calls : List (RunCall β κ)) (call : RunCall β κ), job.gate = g →
      let j := (calls.foldl Ledger.enter ⟨job, [], [], 0⟩).job
      j.gate = (asks ++ calls.map RunCall.ask).foldl Gate.after .shut ∧
      (∀ archive, call.archive = some archive → Run.Asks j call archive) ∧
      ∀ words, (j.run call.args call.archive call.resume call.world).result ≠
        .error (.configuration words) := by
  intro g
  refine ⟨Gate.holdsLast_shut.afterAll asks, fun _ => rfl, fun ask _ => Gate.after_of_error ask,
    fun _ _ _ => Gate.archive_of_ensure, ?_⟩
  intro job calls call hjob j
  refine ⟨?_, fun archive => j.run_asks, fun words => j.run_ne_configuration _ _ _ _ words⟩
  rw [Ledger.gate_enterAll, List.foldl_append, hjob]

/-- Questions for one archive in two spellings, and then for an archive that cannot be opened. -/
def archiveAsks : List Gate.Ask :=
  [⟨⟨[], []⟩, some (.store "arch/")⟩, ⟨⟨[], []⟩, some (.store "arch//.")⟩,
    ⟨⟨[], []⟩, some (.store "")⟩]

/-- A job with a gate that was asked these questions. -/
def archiveJob : Job Scripted.Play Queue.Counted :=
  { refusedPush with gate := archiveAsks.foldl Gate.after .shut }

/-- A run that replays the archive in a third spelling. -/
def archiveCall : RunCall Scripted.Play Queue.Counted :=
  { scriptedCall false 0 [("a", 200)] with archive := some (.replay "arch/." none) }

/-- The archive is opened once, with the first spelling of its path, and replayed with the third. -/
theorem one_archive_in_three_spellings :
    (archiveAsks.foldl Gate.after .shut).archive = some ⟨⟨"arch/"⟩⟩ ∧
      (Gate.shut.answered archiveAsks).map ArchiveArgs.path = ["arch/", "arch//."] ∧
      (archiveAsks.foldl Gate.after .shut).HoldsLast (Gate.shut.answered archiveAsks) ∧
      archiveJob.gate = archiveAsks.foldl Gate.after .shut ∧
      let run := archiveJob.run archiveCall.args archiveCall.archive archiveCall.resume
        archiveCall.world
      run.job.gate = archiveJob.gate ∧ run.items.length = 1 ∧
        Run.Asks archiveJob archiveCall (.replay "arch/." none) := by
  obtain ⟨hholds, -, -, -, hruns⟩ :=
    gate_holds_last_asked (β := Scripted.Play) (κ := Queue.Counted) archiveAsks
  obtain ⟨-, hasks, -⟩ := hruns archiveJob [] archiveCall rfl
  refine ⟨by decide +kernel, by decide +kernel, hholds, rfl, by decide +kernel,
    by decide +kernel, hasks _ rfl⟩

end Harvest
