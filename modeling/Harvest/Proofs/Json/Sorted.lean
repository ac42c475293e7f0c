/-
  Harvest.Proofs.Json.Sorted

  Fields that are set one after the other, and objects whose fields are put in order of their
  names: if each name is there once, every field is found under its name (`get?_insertAll`,
  `get?_sorted`).
-/
import Harvest.Json.Value

namespace Harvest

namespace Fields

theorem get?_eq_none_of_notMem {fields : Fields} {name : String}
    (h : name ∉ fields.map Prod.fst) : fields.get? name = none := by
  induction fields with
  | nil => rfl
  | cons e fields ih =>
    obtain ⟨k, v⟩ := e
    simp only [List.map_cons, List.mem_cons, not_or] at h
    rw [get?_cons, if_neg h.1, ih h.2]

/-- Fields that are set are found, and otherwise those that were there. -/
theorem get?_insertAll {entries : Fields} (h : (entries.map Prod.fst).Nodup) (fields : Fields)
    (name : String) :
    (fields.insertAll entries).get? name = (get? entries name).or (fields.get? name) := by
  induction entries generalizing fields with
  | nil => rfl
  | cons e entries ih =>
    obtain ⟨k, v⟩ := e
    simp only [List.map_cons, List.nodup_cons] at h
    show (insertAll (fields.insert k v) entries).get? name = _
    rw [ih h.2, get?_cons]
    by_cases hk : name = k
    · subst hk
      simp [get?_eq_none_of_notMem h.1]
    · simp [get?_insert_of_ne fields hk, hk]

end Fields

namespace Json

theorem get?_sortedFields (fields : Fields) (name : String) :
    Fields.get? (sortedFields fields) name = (fields.get? name).map sorted := by
  induction fields with
  | nil => rfl
  | cons e fields ih =>
    obtain ⟨k, v⟩ := e
    rw [sortedFields, Fields.get?_cons, Fields.get?_cons, ih]
    split <;> rfl

theorem names_sortedFields (fields : Fields) :
    (sortedFields fields).map Prod.fst = fields.map Prod.fst := by
  induction fields with
  | nil => rfl
  | cons e fields ih =>
    obtain ⟨k, v⟩ := e
    rw [sortedFields, List.map_cons, List.map_cons, ih]

/-- Putting the fields of an object in order leaves their names, if each is there once. -/
theorem get?_sorted {fields : Fields} (h : (fields.map Prod.fst).Nodup) (name : String) :
    (Json.object fields).sorted.get? name = (fields.get? name).map sorted := by
  rw [← names_sortedFields] at h
  show (Fields.insertAll [] (sortedFields fields)).get? name = _
  rw [Fields.get?_insertAll h, Fields.get?_nil, Option.or_none, get?_sortedFields]

end Json

end Harvest
