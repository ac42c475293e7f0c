/-
  Harvest.Files.Writing

  Writing a line at the end of a file: the file is opened, which makes it if it is missing, it is
  locked, and then the line is written. A disk may fail the last two. Writing that fails may have
  left any part of the line in the file.
-/
import Harvest.Files.Tree

namespace Harvest

/-- How it goes to write a line to an open file. -/
inductive Writing where
  | whole
  /-- The file cannot be locked. -/
  | unlocked (words : String)
  /-- An error is met when no more than so many octets of the line are written. -/
  | cut (count : Nat) (words : String)
  deriving DecidableEq, Repr

/-- Why a line was not written. -/
inductive WriteFault where
  | opening (f : FileFault)
  | locking (words : String)
  | writing (words : String)
  deriving DecidableEq, Repr

namespace Writing

/-- The part of a line that is written. -/
def part : Writing → Bytes → Bytes
  | .whole, line => line
  | .unlocked _, _ => []
  | .cut count _, line => line.take count

/-- What comes of it. -/
def outcome : Writing → Except WriteFault Unit
  | .whole => .ok ()
  | .unlocked words => .error (.locking words)
  | .cut _ words => .error (.writing words)

end Writing

/-- A disk that tells, from what its user keeps, how it goes to write the next line, and what the
    user keeps from then on. -/
abbrev Disk (σ : Type) := σ → Writing × σ

/-- A disk that never fails. -/
def Disk.sound {σ : Type} : Disk σ := fun own => (.whole, own)

/-- Writes a line at the end of a file, which is made if it is missing. -/
def FileTree.write (t : FileTree) (p : Path) (line : Bytes) (going : Writing) :
    Except WriteFault Unit × FileTree :=
  match t.append p (going.part line) with
  | .error f => (.error (.opening f), t)
  -- What was written stays, and so does a file that was made for it.
  | .ok t => (going.outcome, t)

theorem Writing.part_prefix (going : Writing) (line : Bytes) : going.part line <+: line := by
  cases going with
  | whole => exact List.prefix_rfl
  | unlocked words => exact List.nil_prefix
  | cut count words => exact List.take_prefix count line

namespace FileTree

variable {t u : FileTree} {p : Path} {line : Bytes} {going : Writing}

/-- On a disk that does not fail, the line is written if the file can be opened. -/
theorem write_whole (t : FileTree) (p : Path) (line : Bytes) :
    t.write p line .whole =
      match t.append p line with
      | .error f => (.error (.opening f), t)
      | .ok u => (.ok (), u) := rfl

/-- The file is as if what was written had been the whole line. -/
theorem write_files (t : FileTree) (p : Path) (line : Bytes) (going : Writing) :
    (t.write p line going).2 = (t.write p (going.part line) .whole).2 := by
  unfold write
  rw [show Writing.whole.part (going.part line) = going.part line from rfl]
  cases t.append p (going.part line) <;> rfl

/-- A line that was written was appended as a whole. -/
theorem write_eq_ok (h : t.write p line going = (.ok (), u)) :
    going = .whole ∧ t.append p line = .ok u := by
  unfold write at h
  cases happend : t.append p (going.part line) with
  | error f =>
    rw [happend] at h
    cases h
  | ok t' =>
    rw [happend] at h
    cases going with
    | whole =>
      cases h
      exact ⟨rfl, happend⟩
    | unlocked words => cases h
    | cut count words => cases h

/-- Of a line that was not written, a part was appended, or the file was not opened. -/
theorem write_eq_error {e : WriteFault} (h : t.write p line going = (.error e, u)) :
    u = t ∨ going ≠ .whole ∧ t.append p (going.part line) = .ok u := by
  unfold write at h
  cases happend : t.append p (going.part line) with
  | error f =>
    rw [happend] at h
    cases h
    exact .inl rfl
  | ok t' =>
    rw [happend] at h
    obtain ⟨houtcome, rfl⟩ := Prod.mk.inj h
    refine .inr ⟨?_, rfl⟩
    rintro rfl
    cases houtcome

end FileTree

end Harvest
