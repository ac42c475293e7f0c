/-
  Harvest.Backend.Registry

  Backends by name. A backend is registered under its own name, in the place of an earlier
  one of that name, and backends are listed in order of their names.
-/
import Harvest.Backend.Basic

namespace Harvest

/-- Backends in order of their names. -/
structure Registry (β : Type) where
  backends : List (Backend β)

namespace Registry

variable {β : Type}

/-- No backends. -/
def empty : Registry β := ⟨[]⟩

/-- Puts a backend among others in order of their names. -/
def place (b : Backend β) : List (Backend β) → List (Backend β)
  | [] => [b]
  | c :: cs =>
    if b.name = c.name then b :: cs
    else if b.name < c.name then b :: c :: cs
    else c :: place b cs

/-- Registers a backend. -/
def register (r : Registry β) (b : Backend β) : Registry β := ⟨place b r.backends⟩

/-- The backend of a name. -/
def find? (r : Registry β) (name : String) : Option (Backend β) :=
  r.backends.find? fun b => b.name == name

/-- The names of the backends in order. -/
def names (r : Registry β) : List String := r.backends.map Backend.name

/-- What there is to say about each backend. -/
def describe (r : Registry β) : List Json :=
  r.backends.map fun b =>
    Json.ofFields [("name", .string b.name),
      ("categories", .array (b.categories.map .string)),
      ("archiving", .bool b.archiving), ("resuming", .bool b.resuming)]

/-- A text that shows the registry. -/
def inspect (r : Registry β) : String :=
  "BackendRegistry \x7b backends: " ++ Text.quotedList r.names ++ " \x7d"

/-- A backend is found under its name once it is registered. -/
theorem find?_register_self (r : Registry β) (b : Backend β) :
    (r.register b).find? b.name = some b := by
  obtain ⟨cs⟩ := r
  simp only [register, find?]
  induction cs with
  | nil => simp [place]
  | cons c cs ih =>
    simp only [place]
    split
    · simp
    · split
      · simp
      · next h _ =>
        have : (c.name == b.name) = false := beq_eq_false_iff_ne.mpr fun e => h e.symm
        simp [List.find?, this, ih]

/-- Registering a backend leaves the others. -/
theorem find?_register_of_ne (r : Registry β) (b : Backend β) {name : String}
    (hn : name ≠ b.name) : (r.register b).find? name = r.find? name := by
  obtain ⟨cs⟩ := r
  have hb : (b.name == name) = false := beq_eq_false_iff_ne.mpr fun e => hn e.symm
  simp only [register, find?]
  induction cs with
  | nil => simp [place, List.find?, hb]
  | cons c cs ih =>
    simp only [place]
    split
    · next h => simp [List.find?, hb, ← h]
    · split
      · simp [List.find?, hb]
      · cases hc : (c.name == name) <;> simp [List.find?, hc, ih]

end Registry
end Harvest
