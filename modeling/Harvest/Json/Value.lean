/-
  Harvest.Json.Value

  JSON values. A number written without fraction and exponent is a whole number as long as
  it fits sixty-four bits, and every other number is a floating-point number: the two stay
  apart, `1` and `1.0` are different values. The fields of an object have an order, which
  is that of their names wherever fields are put in by `Fields.insert`.
-/
import Harvest.Lookup
import Harvest.Number.Binary

namespace Harvest

/-- A JSON number. -/
inductive Number where
  | integer (n : Int)
  | real (x : Float)
  deriving DecidableEq

/-- A JSON value. -/
inductive Json where
  | null
  | bool (b : Bool)
  | number (n : Number)
  | string (s : String)
  | array (items : List Json)
  | object (fields : List (String × Json))

instance : Inhabited Json := ⟨.null⟩

/-- Named values: the fields of an object, the arguments of a fetch, an item. -/
abbrev Fields := List (String × Json)

namespace Number

/-- The floating-point number nearest to a number. -/
def toFloat : Number → Float
  | .integer n => Harvest.Number.floatOfInt n
  | .real x => x

/-- The signed sixty-four bit whole number that a number is, if it is one. -/
def toInt64? : Number → Option Int
  | .integer n =>
    if Harvest.Number.leastSigned64 ≤ n ∧ n ≤ Harvest.Number.greatestSigned64 then some n
    else none
  | .real _ => none

end Number

namespace Fields

/-- The value of a field. -/
def get? (fields : Fields) (name : String) : Option Json := fields.lookup name

/-- Sets a field: in the place of an earlier value, or else before the first field with a
    greater name. -/
def insert (fields : Fields) (name : String) (value : Json) : Fields :=
  match fields with
  | [] => [(name, value)]
  | (k, v) :: rest =>
    if name = k then (name, value) :: rest
    else if name < k then (name, value) :: (k, v) :: rest
    else (k, v) :: insert rest name value

/-- Sets several fields, one after the other. -/
def insertAll (fields : Fields) (entries : List (String × Json)) : Fields :=
  entries.foldl (fun fs e => fs.insert e.1 e.2) fields

@[simp] theorem get?_nil (name : String) : get? [] name = none := rfl

theorem get?_cons (k : String) (v : Json) (rest : Fields) (name : String) :
    get? ((k, v) :: rest) name = if name = k then some v else get? rest name :=
  lookup_cons_ite k v rest name

/-- A field that was set has the value it was set to. -/
@[simp] theorem get?_insert_self (fields : Fields) (name : String) (value : Json) :
    (fields.insert name value).get? name = some value := by
  induction fields with
  | nil => simp [insert, get?_cons]
  | cons e rest ih =>
    obtain ⟨k, v⟩ := e
    by_cases h : name = k
    · simp [insert, get?_cons, h]
    · by_cases l : name < k
      · simp [insert, get?_cons, h, l]
      · simp [insert, get?_cons, h, l, ih]

/-- Setting a field leaves the others. -/
theorem get?_insert_of_ne (fields : Fields) {name other : String} (h : other ≠ name)
    (value : Json) : (fields.insert name value).get? other = fields.get? other := by
  induction fields with
  | nil => simp [insert, get?_cons, h]
  | cons e rest ih =>
    obtain ⟨k, v⟩ := e
    by_cases e : name = k
    · subst e; simp [insert, get?_cons, h]
    · by_cases l : name < k
      · simp [insert, get?_cons, h, e, l]
      · simp [insert, get?_cons, e, l, ih]

end Fields

namespace Json

/-- The text of a string. -/
def asString? : Json → Option String
  | .string s => some s
  | _ => none

/-- The floating-point number nearest to a number. -/
def asFloat? : Json → Option Float
  | .number n => some n.toFloat
  | _ => none

/-- The signed sixty-four bit whole number that a value is. -/
def asInt64? : Json → Option Int
  | .number n => n.toInt64?
  | _ => none

/-- The field of an object. -/
def get? (value : Json) (name : String) : Option Json :=
  match value with
  | .object fields => Fields.get? fields name
  | _ => none

/-- A whole number. -/
def ofInt (n : Int) : Json := .number (.integer n)

/-- A whole number. -/
def ofNat (n : Nat) : Json := .number (.integer n)

/-- A floating-point number; one that is not finite has no number in JSON. -/
def ofFloat (x : Float) : Json := if x.isFinite then .number (.real x) else .null

/-- A value that may be missing, which `null` stands for. -/
def ofOption {α : Type} (f : α → Json) : Option α → Json
  | none => .null
  | some a => f a

/-- An object whose fields are put in order of their names. -/
def ofFields (entries : List (String × Json)) : Json := .object (Fields.insertAll [] entries)

mutual

/-- Puts the fields of every object in order of their names. -/
def sorted : Json → Json
  | .array items => .array (sortedItems items)
  | .object fields => ofFields (sortedFields fields)
  | v => v

/-- Puts the fields of every object in a list of values in order. -/
def sortedItems : List Json → List Json
  | [] => []
  | v :: vs => sorted v :: sortedItems vs

/-- Puts the fields of every object among the values of fields in order. -/
def sortedFields : List (String × Json) → List (String × Json)
  | [] => []
  | (k, v) :: rest => (k, sorted v) :: sortedFields rest

end

end Json
end Harvest
