/-
  Harvest.Proofs.Queue.Lines

  Queues in files. A push that is accepted appends its payload as one more line to the file of the
  queue, and one that is refused appends nothing (`lines_push`). An item has no newline in it, so
  that no queue refuses it for one (`lines_refused`). An archive in the same tree writes to its own
  files, and what the file of a queue gathers meanwhile is what a log of its pushes tells
  (`Gathered.push`, `Gathered.stored`).
-/
import Harvest.Proofs.Archive.Store
import Harvest.Proofs.Backend.Stream
import Harvest.Proofs.Files.Gathering
import Harvest.Proofs.Json.OneLine
import Harvest.Queue.Lines

namespace Harvest

/-- Payloads as lines of a file. -/
def framed (payloads : List Bytes) : Bytes := payloads.flatMap fun payload => payload ++ [newline]

@[simp] theorem framed_nil : framed [] = [] := rfl

@[simp] theorem framed_append (payloads more : List Bytes) :
    framed (payloads ++ more) = framed payloads ++ framed more :=
  List.flatMap_append

@[simp] theorem framed_singleton (payload : Bytes) : framed [payload] = payload ++ [newline] := by
  simp [framed]

theorem framed_eq_nil_iff {payloads : List Bytes} : framed payloads = [] ↔ payloads = [] := by
  cases payloads <;> simp [framed]

/-- An item has no newline in it. -/
theorem Item.newline_notMem_bytes (i : Item) : newline ∉ i.bytes :=
  i.toJson.newline_notMem_bytes

namespace Queue

variable {κ : Type}

/-! ## A push -/

/-- What appending a line to the file of a path comes to: the file gathers the line, or nothing. -/
inductive Gets (files : FileTree) (path : Path) (others : List Path) (line : Bytes) :
    Except QueueError Unit × FileTree → Prop where
  | line {after : FileTree} (h : files.Gathers after path others line) :
      Gets files path others line (.ok (), after)
  | nothing {words : String} {after : FileTree} (h : files.Gathers after path others []) :
      Gets files path others line (.error (.io words), after)

theorem appendLine_gets (path : Path) (others : List Path) (payload : Bytes) (files : FileTree) :
    Gets files path others (payload ++ [newline]) (appendLine path payload files) := by
  unfold appendLine
  simp only [FileTree.write_whole]
  cases path.parent? with
  | none =>
    dsimp only
    cases happend : files.append path (payload ++ [newline]) with
    | error f => exact .nothing (.refl files)
    | ok after => exact .line (.of_append happend)
  | some above =>
    -- The directory of the file is made first, whatever becomes of the line.
    have hmade : files.Gathers (files.makeDirectories above).2 path others [] :=
      .of_adds (files.makeDirectories_adds above)
    dsimp only
    cases hresult : files.makeDirectories above with
    | mk result made =>
      rw [hresult] at hmade
      cases result with
      | error f => exact .nothing hmade
      | ok u =>
        dsimp only
        cases happend : made.append path (payload ++ [newline]) with
        | error f => exact .nothing hmade
        | ok after => exact .line (hmade.trans (.of_append happend))

/-- A payload with a newline is refused before anything is touched. -/
theorem lines_push_of_mem {payload : Bytes} (h : newline ∈ payload) (dir : Path) (name : String)
    (s : Store κ) :
    (lines dir).push name payload s =
      (.error (.invalidPayload "payload contains a newline"), s) := by
  simp [lines, h]

/-- Any other payload is appended to the file of the queue as a line, if that can be. -/
theorem lines_push_of_notMem {payload : Bytes} (h : newline ∉ payload) (dir : Path) (name : String)
    (s : Store κ) :
    (lines dir).push name payload s =
      ((appendLine (linesPath dir name) payload s.files).1,
        { s with files := (appendLine (linesPath dir name) payload s.files).2 }) := by
  simp [lines, h, Disk.sound]

/-- A push that is accepted appends its payload as a line, and one that is refused appends
    nothing. -/
theorem lines_push (dir : Path) (name : String) (others : List Path) (payload : Bytes)
    (s : Store κ) :
    let pushed := (lines dir).push name payload s
    s.files.Gathers pushed.2.files (linesPath dir name) others
      (if pushed.1.isOk then payload ++ [newline] else []) := by
  by_cases h : newline ∈ payload
  · rw [lines_push_of_mem h]
    exact .refl s.files
  · rw [lines_push_of_notMem h]
    have hgets := appendLine_gets (linesPath dir name) others payload s.files
    generalize appendLine (linesPath dir name) payload s.files = appended at hgets
    cases hgets with
    | line hgathers => exact hgathers
    | nothing hgathers => exact hgathers

/-- A payload without a newline is never refused for what it is. -/
theorem io_of_lines_push {dir : Path} {name : String} {payload : Bytes} {s t : Store κ}
    {e : QueueError} (hpayload : newline ∉ payload)
    (h : (lines dir).push name payload s = (.error e, t)) : ∃ words, e = .io words := by
  rw [lines_push_of_notMem hpayload] at h
  have hgets := appendLine_gets (linesPath dir name) [] payload s.files
  generalize appendLine (linesPath dir name) payload s.files = appended at h hgets
  cases hgets with
  | line => cases h
  | nothing =>
    cases h
    exact ⟨_, rfl⟩

/-! ## Pushes and responses -/

/-- Since an earlier time, the file of a path gathered what the log of a queue tells. -/
def Gathered (before : FileTree) (path : Path) (others : List Path)
    (s : Store (κ × List (String × Bytes))) : Prop :=
  before.Gathers s.files path others (framed (s.own.2.map Prod.snd))

variable {before : FileTree} {others : List Path}

/-- A push keeps it so. -/
theorem Gathered.push {dir : Path} {name : String} (s : Store (κ × List (String × Bytes)))
    (payload : Bytes) (h : Gathered before (linesPath dir name) others s) :
    Gathered before (linesPath dir name) others ((lines dir).logged.push name payload s).2 := by
  obtain ⟨files, own, log⟩ := s
  have hgathers := lines_push dir name others payload ⟨files, own⟩
  cases hpush : (lines dir).push name payload ⟨files, own⟩ with
  | mk result after =>
    rw [hpush] at hgathers
    have hall := FileTree.Gathers.trans h hgathers
    cases result with
    | ok u =>
      rw [Queue.logged_push_ok hpush]
      simpa [Gathered, Except.isOk, Except.toBool] using hall
    | error e =>
      rw [Queue.logged_push_error hpush]
      simpa [Gathered, Except.isOk, Except.toBool] using hall

end Queue

/-- What is stored in an archive goes to a file of its own. -/
theorem Archive.append_gathers (a : Archive) {category : String} (line : Bytes)
    (files : FileTree) (path : Path) {others : List Path}
    (hother : a.categoryPath category ∈ others) :
    files.Gathers (a.append category line files).2 path others [] := by
  -- The directory is made in any case, and holds no file of the queue.
  have hmade : files.Gathers (a.prepare files) path others [] :=
    .of_adds (a.adds_prepare files)
  cases happend : a.append category line files with
  | mk result after =>
    cases result with
    | ok u =>
      obtain ⟨l, old, happends⟩ := append_eq_ok happend
      exact hmade.trans (.of_other happends hother)
    | error e =>
      rcases append_eq_error happend with rfl | ⟨hwhole, -⟩
      · exact hmade
      · exact absurd rfl hwhole

/-- Storing responses keeps what the file of a queue gathered. -/
theorem Queue.Gathered.stored {κ : Type} {before : FileTree} {path : Path} {others : List Path}
    {category : String} {archive : Option Archive}
    (h : ∀ a, archive = some a → a.categoryPath category ∈ others) :
    Lines.StoringKeeps (Queue.Gathered (κ := κ) before path others) category archive := by
  intro a ha line s hs
  have hall := FileTree.Gathers.trans hs (a.append_gathers line s.files path (h a ha))
  rwa [List.append_nil] at hall

end Harvest
