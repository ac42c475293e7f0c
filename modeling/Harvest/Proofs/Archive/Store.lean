/-
  Harvest.Proofs.Archive.Store

  What storing responses does to an archive. The file of a category holds the lines that were
  stored, one behind the other (`append_ok`); a response that cannot be stored leaves no more than a
  part of its line behind them (`append_error`). Other files are not touched (`Apart.append`).
-/
import Mathlib.Logic.Function.Iterate
import Harvest.Archive.Replay
import Harvest.Proofs.Files.Writing

namespace Harvest.Archive

/-! ## The file of a category -/

/-- What is found at the path of the file of a category. -/
def found (a : Archive) (category : String) (files : FileTree) :
    Except FileFault (Except FileFault Bytes) :=
  (files.locate (a.categoryPath category)).map files.content

/-- Makes the directory of an archive, as far as that succeeds. -/
def prepare (a : Archive) (files : FileTree) : FileTree := (files.makeDirectories a.path).2

/-- A category has no file yet, and making the directory of the archive brings none to light, as
    it may for a path that leads out of a directory that is yet to be made. -/
def Lacks (a : Archive) (category : String) (files : FileTree) : Prop :=
  ∀ n, (a.prepare^[n] files).locate (a.categoryPath category) = .error .notFound

/-- What the file of a category holds: nothing, as long as there is no file. -/
inductive Holds (a : Archive) (category : String) (files : FileTree) : Bytes → Prop where
  | none (h : a.Lacks category files) : Holds a category files []
  | file {bs : Bytes} (h : a.found category files = .ok (.ok bs)) : Holds a category files bs

section

variable {a : Archive} {category : String} {files u : FileTree} {line bs : Bytes}
  {going : Writing}

theorem found_of_locate {l : Location} (h : files.locate (a.categoryPath category) = .ok l) :
    a.found category files = .ok (files.content l) := by
  unfold found
  rw [h]
  rfl

/-- What is found is at the place to which the path leads. -/
theorem locate_of_found (h : a.found category files = .ok (.ok bs)) :
    ∃ l, files.locate (a.categoryPath category) = .ok l ∧ files.content l = .ok bs := by
  cases hl : files.locate (a.categoryPath category) with
  | error f =>
    unfold found at h
    rw [hl] at h
    cases h
  | ok l =>
    rw [found_of_locate hl] at h
    exact ⟨l, rfl, Except.ok.inj h⟩

theorem Lacks.notFound (h : a.Lacks category files) :
    files.locate (a.categoryPath category) = .error .notFound := h 0

theorem Lacks.prepare (h : a.Lacks category files) : a.Lacks category (a.prepare files) := by
  intro n
  have hlater := h (n + 1)
  rw [Function.iterate_succ_apply] at hlater
  exact hlater

/-- If the directory of an archive is made once and for all, only the files before and behind that
    count. -/
theorem lacks_of_prepared (h : files.locate (a.categoryPath category) = .error .notFound)
    (hmade : (a.prepare files).locate (a.categoryPath category) = .error .notFound)
    (hfixed : a.prepare (a.prepare files) = a.prepare files) : a.Lacks category files := by
  intro n
  cases n with
  | zero => exact h
  | succ n =>
    have hstill : a.prepare^[n] (a.prepare files) = a.prepare files :=
      Function.iterate_fixed hfixed n
    rw [Function.iterate_succ_apply, hstill]
    exact hmade

theorem adds_prepare (a : Archive) (files : FileTree) : files.Adds (a.prepare files) :=
  files.makeDirectories_adds a.path

theorem Holds.prepare (h : a.Holds category files bs) :
    a.Holds category (a.prepare files) bs := by
  cases h with
  | none h => exact .none h.prepare
  | file h =>
    obtain ⟨l, hl, hcontent⟩ := locate_of_found h
    have hadds := a.adds_prepare files
    apply Holds.file
    rw [found_of_locate (hadds.grows.locate hl), hadds.content hcontent]

/-- A category holds one thing only. -/
theorem Holds.unique {cs : Bytes} (h : a.Holds category files bs) (k : a.Holds category files cs) :
    bs = cs := by
  have hnot : ∀ {ds : Bytes}, a.Lacks category files →
      a.found category files ≠ .ok (.ok ds) := by
    intro ds hlacks hfound
    obtain ⟨l, hl, -⟩ := locate_of_found hfound
    rw [hlacks.notFound] at hl
    cases hl
  cases h with
  | none h =>
    cases k with
    | none k => rfl
    | file k => exact absurd k (hnot h)
  | file h =>
    cases k with
    | none k => exact absurd h (hnot k)
    | file k =>
      rw [h] at k
      exact Except.ok.inj (Except.ok.inj k)

/-! ## Appending a line -/

/-- A line is appended to the file once the directory is made. -/
theorem append_prepared (h : a.append category line files going = (.ok (), u)) :
    going = .whole ∧ (a.prepare files).append (a.categoryPath category) line = .ok u := by
  unfold append at h
  split at h
  · cases h
  · next made hmade =>
    have hprepared : a.prepare files = made := by
      unfold prepare
      rw [hmade]
    rw [hprepared]
    cases hwrite : made.write (a.categoryPath category) line going with
    | mk written v =>
      rw [hwrite] at h
      cases written with
      | error e => cases h
      | ok _ =>
        cases h
        exact FileTree.write_eq_ok hwrite

/-- A line is appended where the path leads once the directory is made. -/
theorem append_eq_ok (h : a.append category line files going = (.ok (), u)) :
    ∃ l old, (a.prepare files).Appends u (a.categoryPath category) line l old :=
  FileTree.append_eq_ok (append_prepared h).2

/-- If a line is not appended, the directory is made, and no more than a part of it is in the
    file. -/
theorem append_eq_error {e : ArchiveError}
    (h : a.append category line files going = (.error e, u)) :
    u = a.prepare files ∨ going ≠ .whole ∧
      (a.prepare files).append (a.categoryPath category) (going.part line) = .ok u := by
  unfold prepare
  unfold append at h
  split at h
  · next f made hmade =>
    cases h
    rw [hmade]
    exact .inl rfl
  · next made hmade =>
    rw [hmade]
    cases hwrite : made.write (a.categoryPath category) line going with
    | mk written v =>
      rw [hwrite] at h
      cases written with
      | ok _ => cases h
      | error e =>
        cases h
        exact FileTree.write_eq_error hwrite

theorem append_grows (a : Archive) (category : String) (line : Bytes) (files : FileTree) :
    files.Grows (a.append category line files).2 := by
  have hprepare := (a.adds_prepare files).grows
  cases h : a.append category line files with
  | mk result u =>
    cases result with
    | error e =>
      rcases append_eq_error h with rfl | ⟨hwhole, -⟩
      · exact hprepare
      · exact absurd rfl hwhole
    | ok v =>
      obtain ⟨l, old, happends⟩ := append_eq_ok h
      exact hprepare.trans happends.grows

/-- What is appended once the directory is made stands behind what the file held. -/
theorem found_of_appends {l : Location} {old : Bytes}
    (happends : (a.prepare files).Appends u (a.categoryPath category) line l old)
    (hholds : a.Holds category files bs) : a.found category u = .ok (.ok (bs ++ line)) := by
  have hprepared := hholds.prepare
  rw [found_of_locate happends.located, happends.content]
  rcases happends.before with ⟨hlocated, hcontent⟩ | ⟨hlocated, -, rfl⟩
  · have hold : a.found category (a.prepare files) = .ok (.ok old) := by
      rw [found_of_locate hlocated, hcontent]
    rw [hprepared.unique (.file hold)]
  · cases hprepared with
    | none hlacks => rfl
    | file hfound =>
      obtain ⟨m, hm, -⟩ := locate_of_found hfound
      rw [hlocated] at hm
      cases hm

/-- Behind what it held, the file of a category then holds the line. -/
theorem append_ok (h : a.append category line files going = (.ok (), u))
    (hholds : a.Holds category files bs) : a.found category u = .ok (.ok (bs ++ line)) := by
  obtain ⟨l, old, happends⟩ := append_eq_ok h
  exact found_of_appends happends hholds

/-- Whatever it held, the file of a category then ends with the line. -/
theorem found_of_append (h : a.append category line files going = (.ok (), u)) :
    ∃ old, a.found category u = .ok (.ok (old ++ line)) := by
  obtain ⟨l, old, happends⟩ := append_eq_ok h
  refine ⟨old, ?_⟩
  rw [found_of_locate happends.located, happends.content]

/-- A line that cannot be appended leaves behind what the file of a category held no more than a
    part of it, and nothing on a disk that never fails. -/
theorem append_error {e : ArchiveError}
    (h : a.append category line files going = (.error e, u)) :
    ∃ part, part <+: line ∧ (going = .whole → part = []) ∧
      ∀ bs, a.Holds category files bs → a.Holds category u (bs ++ part) := by
  rcases append_eq_error h with rfl | ⟨hfails, happend⟩
  · refine ⟨[], List.nil_prefix, fun _ => rfl, ?_⟩
    intro bs hholds
    rw [List.append_nil]
    exact hholds.prepare
  · obtain ⟨l, old, happends⟩ := FileTree.append_eq_ok happend
    refine ⟨going.part line, going.part_prefix line, fun hwhole => absurd hwhole hfails, ?_⟩
    exact fun bs hholds => .file (found_of_appends happends hholds)

/-! ## Other files -/

/-- The file of a category is not the one at a place. -/
def Apart (a : Archive) (category : String) (files : FileTree) (place : Location) : Prop :=
  a.Lacks category files ∨ ∃ l, l ≠ place ∧ files.locate (a.categoryPath category) = .ok l

/-- The path of the file of a category does not lead to a place, and does not come to lead there
    when the directory of the archive is made. -/
def Misses (a : Archive) (category : String) (files : FileTree) (place : Location) : Prop :=
  ∀ n, (a.prepare^[n] files).locate (a.categoryPath category) ≠ .ok place

theorem Misses.prepare {place : Location} (h : a.Misses category files place) :
    a.Misses category (a.prepare files) place := by
  intro n
  have hlater := h (n + 1)
  rw [Function.iterate_succ_apply] at hlater
  exact hlater

/-- What a path leads to, it still leads to however often the directory is made. -/
theorem misses_of_locate {l place : Location} (hne : l ≠ place)
    (h : files.locate (a.categoryPath category) = .ok l) : a.Misses category files place := by
  intro n hplace
  have hstill : (a.prepare^[n] files).locate (a.categoryPath category) = .ok l := by
    clear hplace
    induction n generalizing files with
    | zero => exact h
    | succ n ih =>
      rw [Function.iterate_succ_apply]
      exact ih ((a.adds_prepare files).grows.locate h)
  rw [hstill] at hplace
  exact hne (Except.ok.inj hplace)

/-- Appending to an archive leaves a file that its path misses. -/
theorem Misses.append {place : Location} (h : a.Misses category files place)
    (hcontent : files.content place = .ok bs) (line : Bytes) :
    a.Misses category (a.append category line files).2 place ∧
      (a.append category line files).2.content place = .ok bs := by
  have hstill := (a.adds_prepare files).content hcontent
  cases happend : a.append category line files with
  | mk result u =>
    cases result with
    | error e =>
      rcases append_eq_error happend with rfl | ⟨hwhole, -⟩
      · exact ⟨h.prepare, hstill⟩
      · exact absurd rfl hwhole
    | ok v =>
      obtain ⟨l, old, happends⟩ := append_eq_ok happend
      -- The line goes to a new file or to the one that the category had.
      have hne : l ≠ place := by
        rintro rfl
        rcases happends.before with ⟨hlocated, -⟩ | ⟨-, hnode, -⟩
        · exact h 1 hlocated
        · unfold FileTree.content at hstill
          rw [hnode] at hstill
          cases hstill
      refine ⟨misses_of_locate hne happends.located, ?_⟩
      rw [happends.content_of_ne (Ne.symm hne)]
      exact hstill

theorem Apart.misses {place : Location} (h : a.Apart category files place) :
    a.Misses category files place := by
  rcases h with hlacks | ⟨l, hne, hl⟩
  · intro n hplace
    rw [hlacks n] at hplace
    cases hplace
  · exact misses_of_locate hne hl

/-- Appending to an archive leaves the files that are not its own. -/
theorem Apart.append {place : Location} (h : a.Apart category files place)
    (hcontent : files.content place = .ok bs) (line : Bytes) :
    a.Apart category (a.append category line files).2 place ∧
      (a.append category line files).2.content place = .ok bs := by
  obtain ⟨hmisses, hstill⟩ := h.misses.append hcontent line
  refine ⟨?_, hstill⟩
  cases happend : a.append category line files with
  | mk result u =>
    cases result with
    | error e =>
      rcases append_eq_error happend with rfl | ⟨hwhole, -⟩
      · rcases h with hlacks | ⟨l, hne, hl⟩
        · exact .inl hlacks.prepare
        · exact .inr ⟨l, hne, (a.adds_prepare files).grows.locate hl⟩
      · exact absurd rfl hwhole
    | ok v =>
      obtain ⟨l, old, happends⟩ := append_eq_ok happend
      rw [happend] at hmisses
      refine .inr ⟨l, ?_, happends.located⟩
      rintro rfl
      exact hmisses 0 happends.located

end

/-! ## Storing a response -/

section

variable {β : Type} {a : Archive} {category origin : String} {payload : Json} {env env' : Env β}
  {disk : Disk β}

/-- The response that is stored: it has the instant that the clock shows. -/
def offered (category origin : String) (payload : Json) (env : Env β) : Response :=
  ⟨category, origin, env.clock.read.1, payload⟩

theorem store_ok {r : Response}
    (h : a.store category origin payload env disk = (.ok r, env')) :
    r = offered category origin payload env ∧
      a.append category r.line env.files = (.ok (), env'.files) ∧
      env' = ⟨env'.files, env.clock.read.2, (disk env.own).2⟩ := by
  unfold store at h
  dsimp only at h
  split at h
  · cases h
  · next happend =>
    cases h
    have hwhole := (append_prepared happend).1
    rw [hwhole] at happend
    exact ⟨rfl, happend, rfl⟩

theorem store_error {e : ArchiveError}
    (h : a.store category origin payload env disk = (.error e, env')) :
    a.append category (offered category origin payload env).line env.files (disk env.own).1 =
        (.error e, env'.files) ∧
      env' = ⟨env'.files, env.clock.read.2, (disk env.own).2⟩ := by
  unfold store at h
  dsimp only at h
  split at h
  · next happend =>
    cases h
    exact ⟨happend, rfl⟩
  · cases h

/-- A response that could not be stored has left no more than a part of its line behind what the
    file of the category held, and nothing on a disk that never fails. -/
theorem store_leaves {e : ArchiveError}
    (h : a.store category origin payload env disk = (.error e, env')) :
    ∃ part, part <+: (offered category origin payload env).line ∧
      (disk = .sound → part = []) ∧
      ∀ bs, a.Holds category env.files bs → a.Holds category env'.files (bs ++ part) := by
  obtain ⟨part, hpart, hwhole, hleaves⟩ := append_error (store_error h).1
  refine ⟨part, hpart, ?_, hleaves⟩
  rintro rfl
  exact hwhole rfl

end

end Harvest.Archive
