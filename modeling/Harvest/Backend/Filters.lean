/-
  Harvest.Backend.Filters

  The arguments of a fetch from a file of records: the path of the file, the date from
  which on records are wanted, and the number of the line to start at.
-/
import Harvest.Backend.Basic
import Harvest.Calendar.Strict

namespace Harvest

/-- The argument of the path. -/
def pathArgument : String := "path"

/-- The argument of the date to start from. -/
def dateArgument : String := "from_date"

/-- The argument of the line to start at. -/
def offsetArgument : String := "offset"

/-- The path among the arguments. -/
def requiredPath (args : Fields) : Except BackendError String :=
  match args.get? pathArgument with
  | none => .error (.missingArgument "path")
  | some (.string path) =>
    if path = "" then .error (.invalidArgument "path cannot be empty") else .ok path
  | some other => .error (.invalidArgument ("path must be a string, got " ++ other.text))

/-- Which records are wanted: those updated at or after an instant, in milliseconds since
    1970-01-01T00:00:00Z, and those from a line on. -/
structure Filters where
  fromMillis : Option Int
  offset : Int
  deriving DecidableEq, Repr

namespace Filters

/-- The date to start from among the arguments. -/
def dateOf (args : Fields) : Except BackendError (Option Int) :=
  match args.get? dateArgument with
  | none => .ok none
  | some .null => .ok none
  | some (.string s) =>
    match Calendar.Instant.ofStrict s.toList with
    | .ok t => .ok (some t.toMillis)
    | .error f => .error (.invalidArgument ("from_date: " ++ f.message))
  | some other =>
    .error (.invalidArgument ("from_date must be an RFC 3339 string, got " ++ other.text))

/-- The line to start at among the arguments. -/
def offsetOf (args : Fields) : Except BackendError Int :=
  match args.get? offsetArgument with
  | none => .ok 0
  | some .null => .ok 0
  | some v =>
    let refused : BackendError :=
      .invalidArgument ("offset must be a non-negative integer, got " ++ v.text)
    match v.asInt64? with
    -- A number with a fraction or an exponent is no line, even if its value is whole.
    | some n => if 0 ≤ n then .ok n else .error refused
    | none => .error refused

/-- The filters among the arguments. -/
def ofArgs (args : Fields) : Except BackendError Filters := do
  let fromMillis ← dateOf args
  let offset ← offsetOf args
  return ⟨fromMillis, offset⟩

/-- Whether a line is passed over. -/
def skipsLine (f : Filters) (line : Int) : Bool := line < f.offset

/-- Whether an item is passed over: its time, rounded to milliseconds, is too early. -/
def skipsItem (f : Filters) (item : Item) : Bool :=
  match f.fromMillis, item.updated? with
  | some least, some updated => Number.roundToInt64 (updated * 1000) < least
  | _, _ => false

@[simp] theorem skipsLine_eq_true_iff {f : Filters} {line : Int} :
    f.skipsLine line = true ↔ line < f.offset := decide_eq_true_iff

@[simp] theorem skipsLine_eq_false_iff {f : Filters} {line : Int} :
    f.skipsLine line = false ↔ f.offset ≤ line := by
  rw [← Bool.not_eq_true, skipsLine_eq_true_iff, Int.not_lt]

/-- An item is passed over if it is dated too early. -/
theorem skipsItem_eq_true_iff {f : Filters} {i : Item} :
    f.skipsItem i = true ↔ ∃ least updated, f.fromMillis = some least ∧
      i.updated? = some updated ∧ Number.roundToInt64 (updated * 1000) < least := by
  unfold skipsItem
  constructor
  · intro h
    split at h
    · next least updated hleast hupdated =>
      exact ⟨least, updated, hleast, hupdated, of_decide_eq_true h⟩
    · cases h
  · rintro ⟨least, updated, hleast, hupdated, h⟩
    rw [hleast, hupdated]
    exact decide_eq_true h

/-- An item without a date is passed over by no filters. -/
theorem skipsItem_of_undated {i : Item} (h : i.updated? = none) (f : Filters) :
    f.skipsItem i = false := by
  rw [← Bool.not_eq_true, skipsItem_eq_true_iff]
  rintro ⟨least, updated, -, hupdated, -⟩
  rw [h] at hupdated
  cases hupdated

end Filters
end Harvest
