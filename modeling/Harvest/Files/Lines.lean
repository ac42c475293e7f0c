/-
  Harvest.Files.Lines

  The lines of a file, and reading a file line by line while it may grow. A line keeps the
  newline that ends it; only the last line may lack one.
-/
import Harvest.Files.Tree

namespace Harvest

/-! ## Cutting into lines -/

/-- Puts an octet in front of the first of several lines. -/
def consLine (b : UInt8) : List Bytes → List Bytes
  | [] => [[b]]
  | l :: ls => (b :: l) :: ls

/-- The lines of a file in order. -/
def linesOf : Bytes → List Bytes
  | [] => []
  | b :: bs => if b = newline then [b] :: linesOf bs else consLine b (linesOf bs)

/-- Whether a line is ended by a newline. -/
def isEnded (line : Bytes) : Bool := line.getLast? == some newline

/-- A line without the newline that ends it and a carriage return just before it. -/
def chomp (line : Bytes) : Bytes :=
  if isEnded line then
    let body := line.dropLast
    if body.getLast? = some carriageReturn then body.dropLast else body
  else line

@[simp] theorem linesOf_nil : linesOf [] = [] := rfl

theorem flatten_consLine (b : UInt8) (ls : List Bytes) :
    (consLine b ls).flatten = b :: ls.flatten := by
  cases ls <;> rfl

/-- The lines of a file make up the file. -/
theorem flatten_linesOf (bs : Bytes) : (linesOf bs).flatten = bs := by
  induction bs with
  | nil => rfl
  | cons b bs ih =>
    simp only [linesOf]
    split
    · simp [ih]
    · simp [flatten_consLine, ih]

theorem linesOf_cons_newline (bs : Bytes) : linesOf (newline :: bs) = [newline] :: linesOf bs := by
  simp [linesOf]

theorem linesOf_cons_of_ne {b : UInt8} (h : b ≠ newline) (bs : Bytes) :
    linesOf (b :: bs) = consLine b (linesOf bs) := by
  simp [linesOf, h]

theorem linesOf_ne_nil {bs : Bytes} (h : bs ≠ []) : linesOf bs ≠ [] := by
  intro e
  have := flatten_linesOf bs
  rw [e] at this
  exact h this.symm

theorem consLine_append (b : UInt8) {ls : List Bytes} (h : ls ≠ []) (ms : List Bytes) :
    consLine b (ls ++ ms) = consLine b ls ++ ms := by
  cases ls with
  | nil => exact absurd rfl h
  | cons l ls => rfl

/-- A part that ends with a newline is cut into lines on its own. -/
theorem linesOf_append {bs : Bytes} (h : bs = [] ∨ isEnded bs = true) (cs : Bytes) :
    linesOf (bs ++ cs) = linesOf bs ++ linesOf cs := by
  induction bs with
  | nil => rfl
  | cons b bs ih =>
    have rest : bs = [] ∨ isEnded bs = true := by
      cases bs with
      | nil => exact Or.inl rfl
      | cons c bs => exact Or.inr (by simpa [isEnded] using h)
    rw [List.cons_append]
    by_cases hb : b = newline
    · subst hb
      rw [linesOf_cons_newline, linesOf_cons_newline, ih rest, List.cons_append]
    · have hne : bs ≠ [] := by
        rintro rfl
        simp [isEnded, hb] at h
      rw [linesOf_cons_of_ne hb, linesOf_cons_of_ne hb, ih rest,
        consLine_append b (linesOf_ne_nil hne)]

/-! ## Reading on -/

/-- How far a file has been read. -/
structure Reading where
  place : Location
  position : Nat
  deriving DecidableEq, Repr

/-- The lines of a file that are not yet read. -/
def Reading.lines (r : Reading) (t : FileTree) : Except FileFault (List Bytes) := do
  -- The file is looked at anew, as it may have grown.
  let content ← t.content r.place
  return linesOf (content.drop r.position)

/-- The reading after which given lines are left of those that were left. -/
def Reading.upTo (r : Reading) (before after : List Bytes) : Reading :=
  { r with position := r.position + (before.flatten.length - after.flatten.length) }

/-- The most lines that can be read of the file at a place before the last one that it has
    now, and the one after it, are read. -/
def FileTree.lineBound (t : FileTree) (place : Location) : Nat :=
  match t.content place with
  | .ok content => content.length + 2
  | .error _ => 1

end Harvest
