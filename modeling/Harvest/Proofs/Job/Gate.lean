/-
  Harvest.Proofs.Job.Gate

  The gate of a job. A gate that was opened for the archive that a request asks for stays open
  for it, whatever becomes of the files in the meantime (`ensure_of_openFor`), and asks its
  backend along the route that the request selects (`items_live`, `items_replay`).
-/
import Harvest.Job.Gate

namespace Harvest.Gate

/-- Opening an archive keeps its path. -/
theorem path_of_openAt {files : FileTree} {path : Path} {a : Archive}
    (h : Archive.openAt files path = .ok a) : a = ⟨path⟩ := by
  unfold Archive.openAt at h
  split at h
  · cases h
  · split at h
    · cases h
    · cases h
      rfl

/-- A gate that was opened for an archive has just that archive. -/
theorem archive_of_openFor {files : FileTree} {archive : Option ArchiveArgs} {g : Gate}
    (h : openFor files archive = .ok g) : g.archive = archive.map fun args => ⟨⟨args.path⟩⟩ := by
  unfold openFor at h
  cases archive with
  | none =>
    cases h
    rfl
  | some args =>
    simp only [ensure, shut, Option.any_none, Bool.false_eq_true, if_false] at h
    cases ha : Archive.openAt files ⟨args.path⟩ with
    | error e =>
      rw [ha] at h
      cases h
    | ok a =>
      rw [ha] at h
      cases h
      rw [path_of_openAt ha]
      rfl

/-- A gate stays open for the archive that it has. -/
theorem ensure_of_archive {g : Gate} {args : ArchiveArgs}
    (h : g.archive = some ⟨⟨args.path⟩⟩) (files : FileTree) :
    g.ensure files (some args) = .ok g := by
  have hsame : g.archive.any (fun a => a.path.same ⟨args.path⟩) = true := by
    rw [h]
    exact Path.same_refl ⟨args.path⟩
  unfold ensure
  dsimp only
  rw [if_pos hsame]

/-- A gate that was opened for an archive stays open for it. -/
theorem ensure_of_openFor {files : FileTree} {archive : Option ArchiveArgs} {g : Gate}
    (h : openFor files archive = .ok g) (later : FileTree) : g.ensure later archive = .ok g := by
  cases archive with
  | none => rfl
  | some args => exact ensure_of_archive (archive_of_openFor h) later

/-- An archive that can be opened opens a gate. -/
theorem openFor_of_openAt {files : FileTree} {args : ArchiveArgs} {a : Archive}
    (h : Archive.openAt files ⟨args.path⟩ = .ok a) :
    openFor files (some args) = .ok ⟨some a⟩ := by
  simp [openFor, ensure, shut, h]

/-- A gate fails with an error of its archive, if with any. -/
theorem ensure_error {g : Gate} {files : FileTree} {archive : Option ArchiveArgs} {e : JobError}
    (h : g.ensure files archive = .error e) : ∃ fault, e = .archive fault := by
  unfold ensure at h
  split at h
  · cases h
  · split at h
    · cases h
    · split at h <;> cases h
      exact ⟨_, rfl⟩

/-- A gate that has an archive open has one open after it was asked for another. -/
theorem isSome_of_ensure {g gate : Gate} {files : FileTree} {archive : Option ArchiveArgs}
    (h : g.ensure files archive = .ok gate) (hopen : g.archive.isSome = true) :
    gate.archive.isSome = true := by
  unfold ensure at h
  split at h
  · cases h
    exact hopen
  · split at h
    · cases h
      exact hopen
    · split at h
      · cases h
        rfl
      · cases h

/-- What becomes of a gate that is asked for an archive: it is kept if its archive is of the same
    path, and otherwise the archive is opened anew or there is an error. -/
inductive Ensures (g : Gate) (args : ArchiveArgs) : Except JobError Gate → Prop where
  | kept {a : Archive} (ha : g.archive = some a) (hsame : a.path.same ⟨args.path⟩ = true) :
      Ensures g args (.ok g)
  | opened (hother : ∀ a, g.archive = some a → a.path.same ⟨args.path⟩ = false)
      (htext : args.path ≠ "") : Ensures g args (.ok ⟨some ⟨⟨args.path⟩⟩⟩)
  | refused (fault : ArchiveError) : Ensures g args (.error (.archive fault))

theorem ensures (g : Gate) (files : FileTree) (args : ArchiveArgs) :
    g.Ensures args (g.ensure files (some args)) := by
  unfold ensure
  dsimp only
  cases hany : g.archive.any fun a => a.path.same ⟨args.path⟩ with
  | true =>
    obtain ⟨a, ha, hsame⟩ := (Option.any_eq_true ..).mp hany
    exact .kept ha hsame
  | false =>
    rw [if_neg Bool.false_ne_true]
    have hother : ∀ a, g.archive = some a → a.path.same ⟨args.path⟩ = false := by
      intro a ha
      rw [ha] at hany
      exact hany
    cases hopen : Archive.openAt files ⟨args.path⟩ with
    | error fault => exact .refused fault
    | ok a =>
      rw [path_of_openAt hopen]
      refine .opened hother ?_
      rintro hempty
      unfold Archive.openAt at hopen
      rw [if_pos hempty] at hopen
      cases hopen

/-- A gate that was asked for an archive and did not fail has one of that path. -/
theorem holds_of_ensure {g gate : Gate} {files : FileTree} {args : ArchiveArgs}
    (h : g.ensure files (some args) = .ok gate) :
    ∃ a, gate.archive = some a ∧ a.path.same ⟨args.path⟩ = true := by
  have hensures := g.ensures files args
  rw [h] at hensures
  cases hensures with
  | kept ha hsame => exact ⟨_, ha, hsame⟩
  | opened => exact ⟨_, rfl, Path.same_refl _⟩

/-- A gate that did not fail has an archive wherever one was asked for. -/
theorem isSome_of_asked {g gate : Gate} {files : FileTree} {archive : Option ArchiveArgs}
    (h : g.ensure files archive = .ok gate) (hasked : archive.isSome = true) :
    gate.archive.isSome = true := by
  obtain ⟨args, rfl⟩ := Option.isSome_iff_exists.mp hasked
  obtain ⟨a, ha, -⟩ := holds_of_ensure h
  exact Option.isSome_of_eq_some ha

/-- Without a replay the backend is asked to fetch. -/
theorem items_live {β : Type} {g : Gate} {archive : Option ArchiveArgs}
    (h : Route.select archive = .live) (b : Backend β) (category : String) (args : Fields)
    (env : Env β) :
    g.items b category args archive env =
      ((b.fetch category args g.archive env).1.mapError .backend,
        (b.fetch category args g.archive env).2) := by
  unfold items
  rw [h]

/-- For a replay the backend is asked to replay the archive. -/
theorem items_replay {β : Type} {g : Gate} {archive : Option ArchiveArgs}
    {after : Option Calendar.Instant} {a : Archive}
    (h : Route.select archive = .replay after) (ha : g.archive = some a) (b : Backend β)
    (category : String) (args : Fields) (env : Env β) :
    g.items b category args archive env =
      ((b.replay category args a after env).1.mapError .backend,
        (b.replay category args a after env).2) := by
  unfold items
  rw [h, ha]

end Harvest.Gate
