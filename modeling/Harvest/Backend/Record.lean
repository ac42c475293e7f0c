/-
  Harvest.Backend.Record

  Records of a file and the items made of them. A record has an identifier, a string or a
  number, and the time of its last update, a date or a number of seconds.
-/
import Harvest.Backend.Filters
import Harvest.Digest.Sha256

namespace Harvest

/-- The name of the backend that reads records from a file. -/
def recordsName : String := "jsonl"

/-- The category of the items that are made of records. -/
def recordCategory : String := "item"

namespace Record

/-- The identifier of the item of a record: the digest of its origin and its own
    identifier, with a colon between them. -/
def uuid (origin id : String) : String :=
  Digest.sha256Hex (Utf8.ofString origin ++ 0x3A :: Utf8.ofString id)

/-- The own identifier of a record. -/
def id? (record : Json) : Option String :=
  match record.get? "id" with
  | some (.string s) => some s
  | some (.number n) => some (String.ofList n.chars)
  | _ => none

/-- The time of the last update of a record, in seconds since 1970-01-01T00:00:00Z. -/
def secondsOf (updated : Json) : Except BackendError Float :=
  match updated with
  | .string s =>
    match Calendar.Instant.ofStrict s.toList with
    | .ok t => .ok (Number.floatOfInt t.toMillis / 1000)
    | .error f =>
      .error (.parse ("invalid updated date " ++ Text.quoted s ++ ": " ++ f.message))
  | .number n => .ok n.toFloat
  | other => .error (.parse ("invalid updated field " ++ other.text))

/-- The item of a record that is on a line of its origin, and the number of the next line, from
    which it goes on. -/
def toItem (origin category : String) (line next : Int) (record : Json) :
    Except BackendError Item := do
  let place := "record at line " ++ toString line
  let id ← match id? record with
    | some id => pure id
    | none => throw (.parse (place ++ " has no id"))
  -- A record without identifier is told of first.
  let updated ← match record.get? "updated" with
    | some v => secondsOf v
    | none => throw (.parse (place ++ " has no updated"))
  return ⟨Fields.insertAll [] [
    ("backend_name", .string recordsName), ("category", .string category),
    ("origin", .string origin), (Item.uuidField, .string (uuid origin id)),
    (Item.updatedField, .ofFloat updated), (Item.offsetField, .ofInt next),
    ("data", record)]⟩

/-- What is archived of a record: it, and the line it is on. -/
def payload (line : Int) (record : Json) : Json :=
  Json.ofFields [("line", .ofInt line), ("record", record)]

end Record
end Harvest
