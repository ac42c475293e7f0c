/-
  Harvest.Json.Shape

  Kinds of values that a document may have at a place. A shape tells how a value of its
  kind is read from a text and how a JSON value is checked to be one; the two refuse with
  the same words, but only a text has places. A record is an object whose fields are named
  by a layout. It may also be an array of the values of its fields.
-/
import Harvest.Json.Read
import Harvest.Json.Skip
import Harvest.Calendar.Relaxed

namespace Harvest.Json

/-- A kind of values: how one is read from a text in which arrays and objects may nest so
    many levels more, and how a JSON value is checked to be one. -/
structure Shape (α : Type) where
  read : Nat → Reader α
  check : Json → Except Mismatch α

/-- What a JSON value is, for words about a value of the wrong kind. -/
def Found.ofJson : Json → Found
  | .null => .null
  | .bool b => .flag b
  | .number (.integer n) => .integer n
  | .number (.real x) => .real x
  | .string s => .text s
  | .array _ => .sequence
  | .object _ => .map

/-- Refuses a JSON value of the wrong kind. -/
def refuse {α : Type} (expected : String) (v : Json) : Except Mismatch α :=
  .error (.kind (.ofJson v) expected)

/-- Places a refusal of what was just read. -/
def placed {α : Type} (cs : List Char) : Except Mismatch α → Except Fault (α × List Char)
  | .ok a => .ok (a, cs)
  | .error m => .error (.here (.mismatch m) cs)

/-- Reads a value of the wrong kind and refuses it. Arrays and objects are refused by their
    opening bracket. -/
def readOther {α : Type} (expected : String) : Reader α := fun cs => do
  let refuseList : Reader Json := fun cs => placed cs (refuse expected (.array []))
  let refuseMap : Reader Json := fun cs => placed cs (refuse expected (.object []))
  let (v, cs) ← readBy refuseList refuseMap cs
  placed cs (refuse expected v)

/-- Goes into an array or object from its opening bracket, unless it nests too deep. -/
def enter {α : Type} (inside : Nat → Reader α) : Nat → Reader α
  | 0, cs => refuseDeep cs
  | levels + 1, cs => inside levels (cs.drop 1)

namespace Shape

/-- A shape whose values are taken for others, if they can be. -/
def refine {α β : Type} (s : Shape α) (f : α → Except Mismatch β) : Shape β where
  read levels cs := do
    let (a, cs) ← s.read levels cs
    placed cs (f a)
  check v := do
    let a ← s.check v
    f a

/-- A shape whose values are taken for others. -/
def map {α β : Type} (s : Shape α) (f : α → β) : Shape β where
  read levels cs := do
    let (a, cs) ← s.read levels cs
    return (f a, cs)
  check v := do
    let a ← s.check v
    return f a

/-! ## Single values -/

/-- Any value. -/
def any : Shape Json where
  read := readValue
  check := .ok

/-- A string, by the words for what it has to be. -/
def string (expected : String) : Shape String where
  read _ cs :=
    match skipSpace cs with
    | '"' :: cs => readString cs
    | cs => readOther expected cs
  check
    | .string s => .ok s
    | v => refuse expected v

/-- Any string. -/
def text : Shape String := string "a string"

/-- A truth value. -/
def flag : Shape Bool where
  read _ cs :=
    match skipSpace cs with
    | 't' :: cs => do
      let ((), cs) ← readWord ['r', 'u', 'e'] cs
      return (true, cs)
    | 'f' :: cs => do
      let ((), cs) ← readWord ['a', 'l', 's', 'e'] cs
      return (false, cs)
    | cs => readOther "a boolean" cs
  check
    | .bool b => .ok b
    | v => refuse "a boolean" v

/-- A number. -/
def number (expected : String) : Shape Number where
  read _ cs :=
    match skipSpace cs with
    | [] => .error (.here .endInValue [])
    | c :: cs =>
      if c = '-' ∨ c.isDigit then readNumber (c :: cs) else readOther expected (c :: cs)
  check
    | .number n => .ok n
    | v => refuse expected v

/-- A whole number between two bounds. -/
def whole (expected : String) (least greatest : Int) : Shape Int :=
  (number expected).refine fun
    | .integer n =>
      if least ≤ n ∧ n ≤ greatest then .ok n else .error (.value (.integer n) expected)
    | .real x => .error (.kind (.real x) expected)

/-- A whole number of sixty-four bits without sign. -/
def unsigned64 : Shape Nat := (whole "u64" 0 Number.greatestUnsigned64).map Int.toNat

/-- A whole number of thirty-two bits without sign. -/
def unsigned32 : Shape Nat := (whole "u32" 0 Number.greatestUnsigned32).map Int.toNat

/-- A whole number of sixty-four bits with a sign. -/
def signed64 : Shape Int := whole "i64" Number.leastSigned64 Number.greatestSigned64

/-- A floating-point number, which may also be written as a whole number. -/
def real : Shape Float := (number "f64").map Number.toFloat

/-- A date in the relaxed form. -/
def date : Shape Calendar.Instant :=
  (string "an RFC 3339 formatted date and time string").refine fun s =>
    (Calendar.Instant.ofRelaxed s.toList).mapError fun f => .other f.message

/-- A value that may be missing, for which `null` stands. -/
def nullable {α : Type} (s : Shape α) : Shape (Option α) where
  read levels cs :=
    match skipSpace cs with
    | 'n' :: cs => do
      let ((), cs) ← readWord ['u', 'l', 'l'] cs
      return (none, cs)
    | cs => do
      let (a, cs) ← s.read levels cs
      return (some a, cs)
  check
    | .null => .ok none
    | v => do
      let a ← s.check v
      return some a

/-- Any values by names. -/
def fields : Shape Fields where
  read levels cs :=
    match skipSpace cs with
    | '{' :: cs =>
      let inside (levels : Nat) : Reader Fields := fun cs =>
        readFields (readFieldInto (readValue levels)) (cs.length + 1) true [] cs
      enter inside levels ('{' :: cs)
    | cs => readOther "a map" cs
  check
    | .object fs => .ok fs
    | v => refuse "a map" v

end Shape

end Harvest.Json
