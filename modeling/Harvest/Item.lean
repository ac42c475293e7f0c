/-
  Harvest.Item

  Items: open-ended objects that are passed on as they are. Three of their fields have a
  meaning to a job, an identifier, the time of the last update and an offset, and two more
  are set on every item that a job passes on.
-/
import Harvest.Json.Record

namespace Harvest

/-- An item that a backend fetches. -/
structure Item where
  fields : Fields

namespace Item

/-- The field of the identifier. -/
def uuidField : String := "uuid"

/-- The field of the time of the last update, in seconds since 1970-01-01T00:00:00Z. -/
def updatedField : String := "updated_on"

/-- The field of the offset to go on from behind the item. -/
def offsetField : String := "offset"

/-- The field of the version of the collector. -/
def versionField : String := "collector_version"

/-- The field of the job that passed the item on. -/
def jobField : String := "job_id"

/-- The version of the collector. -/
def version : String := "0.1.0"

/-- An item without fields. -/
def empty : Item := ⟨[]⟩

/-- The item of a JSON value, which has to be an object. -/
def ofJson? : Json → Option Item
  | .object fields => some ⟨fields⟩
  | _ => none

/-- The value of a field. -/
def get? (i : Item) (name : String) : Option Json := i.fields.get? name

/-- Sets a field. -/
def insert (i : Item) (name : String) (value : Json) : Item := ⟨i.fields.insert name value⟩

/-- The identifier. -/
def uuid? (i : Item) : Option String := i.get? uuidField >>= Json.asString?

/-- The time of the last update. -/
def updated? (i : Item) : Option Float := i.get? updatedField >>= Json.asFloat?

/-- The offset to go on from behind the item. -/
def offset? (i : Item) : Option Int := i.get? offsetField >>= Json.asInt64?

/-- The item as a JSON value. -/
def toJson (i : Item) : Json := .object i.fields

/-- The item as it is sent to a queue. -/
def bytes (i : Item) : Bytes := i.toJson.bytes

/-- The item with the version of the collector and the job that it belongs to. -/
def tagged (i : Item) (job : String) : Item :=
  (i.insert versionField (.string version)).insert jobField (.string job)

/-- The shape of an item in a document. -/
def shape : Json.Shape Item := Json.Shape.fields.map Item.mk

@[simp] theorem get?_insert_self (i : Item) (name : String) (value : Json) :
    (i.insert name value).get? name = some value :=
  Fields.get?_insert_self i.fields name value

theorem get?_insert_of_ne (i : Item) {name other : String} (h : other ≠ name) (value : Json) :
    (i.insert name value).get? other = i.get? other :=
  Fields.get?_insert_of_ne i.fields h value

/-- Tagging changes two fields and leaves every other one. -/
theorem get?_tagged (i : Item) (job name : String) :
    (i.tagged job).get? name =
      if name = jobField then some (.string job)
      else if name = versionField then some (.string version)
      else i.get? name := by
  by_cases hj : name = jobField
  · subst hj; simp [tagged]
  · by_cases hv : name = versionField
    · subst hv; simp [tagged, get?_insert_of_ne _ hj, hj]
    · simp [tagged, get?_insert_of_ne _ hj, get?_insert_of_ne _ hv, hj, hv]

@[simp] theorem uuid?_tagged (i : Item) (job : String) : (i.tagged job).uuid? = i.uuid? := by
  simp [uuid?, get?_tagged, show uuidField ≠ jobField by decide,
    show uuidField ≠ versionField by decide]

@[simp] theorem updated?_tagged (i : Item) (job : String) :
    (i.tagged job).updated? = i.updated? := by
  simp [updated?, get?_tagged, show updatedField ≠ jobField by decide,
    show updatedField ≠ versionField by decide]

@[simp] theorem offset?_tagged (i : Item) (job : String) :
    (i.tagged job).offset? = i.offset? := by
  simp [offset?, get?_tagged, show offsetField ≠ jobField by decide,
    show offsetField ≠ versionField by decide]

end Item
end Harvest
