/-
  Harvest.Proofs.Queue.Payload

  What the octets say that a queue is given. A payload is read on its own, without the item that it
  was made of: `Payload.IsObject` says that it is the text of one object and of nothing else, and
  `Payload.field?` is what this object has under a name. The octets of an item are such a text, and
  its fields are found there one by one (`Item.writtenAs_bytes`).
-/
import Harvest.Item
import Harvest.Proofs.Json.Members

namespace Harvest

namespace Payload

/-- A payload is the text of one object, with nothing around it. -/
def IsObject (payload : Bytes) : Prop :=
  ∃ cs, Utf8.decode payload = .ok ('\x7b' :: cs) ∧ Json.skipValue ('\x7b' :: cs) = .ok ((), [])

/-- What a shape reads of a payload, if it can be read. -/
def read? {α : Type} (s : Json.Shape α) (payload : Bytes) : Option α :=
  (Utf8.decode payload).toOption.bind fun cs => (s.ofChars cs).toOption

/-- What the object has under a name that a payload is the text of, if it is one: a value, or
    nothing. -/
def field? (payload : Bytes) (name : String) : Option (Option Json) :=
  read? (Json.Shape.member name .any) payload

/-- A payload that is the text of a value is read as that value is. -/
theorem read?_bytes {α : Type} {s : Json.Shape α} {v : Json} {a : α}
    (h : s.Reads Json.nestingLimit v a) : read? s v.bytes = some a := by
  have hread := h.ofChars .nil rfl
  rw [List.append_nil] at hread
  unfold read? Json.bytes
  rw [Utf8.decode_encode]
  show (s.ofChars v.chars).toOption = _
  rw [hread]
  rfl

/-- The text of an object is the payload of an object, however deep it nests. -/
theorem isObject_bytes (fs : Fields) : IsObject (Json.object fs).bytes := by
  have hchars : (Json.object fs).chars = '\x7b' :: (Json.fieldChars fs ++ ['\x7d']) := by
    have happend := Json.chars_object_append fs []
    rw [List.append_nil] at happend
    exact happend
  refine ⟨Json.fieldChars fs ++ ['\x7d'], ?_, ?_⟩
  · unfold Json.bytes
    rw [Utf8.decode_encode, hchars]
  · have hskip := Json.skipValue_chars (.object fs) .nil
    rw [List.append_nil, hchars] at hskip
    exact hskip

end Payload

namespace Item

/-- The fields of an item are in order of their names, so that no name is there twice. -/
def Ordered (i : Item) : Prop := i.fields.Ordered

theorem Ordered.tagged {i : Item} (h : i.Ordered) (job : String) : (i.tagged job).Ordered :=
  (Fields.Ordered.insert h _ _).insert _ _

/-- A payload says what an item is. -/
structure WrittenAs (i : Item) (payload : Bytes) : Prop where
  object : Payload.IsObject payload
  /-- Under each name the payload has what the item has there, nothing included, if the value can
      be read back from a text. -/
  field : ∀ name,
    (∀ v, i.get? name = some v → v.ReadsBack ∧ v.depth < Json.nestingLimit) →
    Payload.field? payload name = some (i.get? name)
  /-- The payload is read as the item, if all of it can be read back. -/
  whole : i.toJson.ReadsBack → i.toJson.depth ≤ Json.nestingLimit →
    Payload.read? shape payload = some i

/-- The octets of an item say what it is. -/
theorem writtenAs_bytes {i : Item} (h : i.Ordered) : i.WrittenAs i.bytes where
  object := Payload.isObject_bytes i.fields
  field := by
    intro name hvalue
    refine Payload.read?_bytes ?_
    cases hget : i.get? name with
    | none => exact Json.Shape.reads_member_none hget
    | some v =>
      obtain ⟨hback, hdepth⟩ := hvalue v hget
      have hread := Json.Shape.reads_any (Nat.le_of_lt_succ hdepth) hback.readable
      rw [hback.reread] at hread
      exact Json.Shape.reads_member h.nodup hget hread
  whole := by
    intro hback hdepth
    exact Payload.read?_bytes ((Json.Shape.reads_fields hdepth hback).map mk)

/-- A field that is a string is found in the payload. -/
theorem WrittenAs.string {i : Item} {payload : Bytes} (h : i.WrittenAs payload)
    {name s : String} (hget : i.get? name = some (.string s)) :
    Payload.field? payload name = some (some (.string s)) := by
  rw [← hget]
  refine h.field name ?_
  intro v hv
  cases hget.symm.trans hv
  have hdepth : (Json.string s).depth < Json.nestingLimit := by simp [Json.depth, Json.nestingLimit]
  exact ⟨(Json.Parsed.string s).readsBack (by intro x hx; cases hx), hdepth⟩

end Item

end Harvest
