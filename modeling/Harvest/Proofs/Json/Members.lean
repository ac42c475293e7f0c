/-
  Harvest.Proofs.Json.Members

  One field of an object. A shape for a member reads the field of one name and passes over all the
  others, whatever their values are. It finds in the text of an object what the object has there:
  the value, if the shape of the field reads it (`Shape.reads_member`), or nothing
  (`Shape.reads_member_none`).
-/
import Harvest.Proofs.Json.Documents
import Harvest.Proofs.Json.Wellformed

namespace Harvest.Json

/-- An object of which one field is looked at, which may be missing. -/
def Layout.member {α : Type} (name : String) (s : Shape α) :
    Layout (Option α × Unit) (Option (Option α) × Unit) :=
  .field name (s.map some) (.optional none) .done

/-- The value of the field of a name, if there is one. -/
def Shape.member {α : Type} (name : String) (s : Shape α) : Shape (Option α) :=
  (record "object" (.member name s)).map Prod.fst

namespace Layout

/-- A layout without fields passes over all that there are. -/
theorem feeds_done (levels : Nat) (fs : Fields) :
    Feeds (fun name => Layout.done.readInto levels name) () fs () := by
  induction fs with
  | nil => exact .nil ()
  | cons f fs ih =>
    refine .cons ?_ ih
    intro rest hrest
    rw [readInto]
    exact (bind_of_ok (readColon_cons _) _).trans (skipValue_chars f.2 hrest)

section

variable {α : Type} {levels : Nat} {name : String} {s : Shape α} {fs : Fields}

/-- A field is read among others whose values are not looked at. -/
theorem feeds_member (hnames : (fs.map Prod.fst).Nodup) {v : Json} (hget : fs.get? name = some v)
    {a : α} (h : s.Reads levels v a) :
    Feeds (fun n => (member name s).readInto levels n) (none, ()) fs (some (some a), ()) := by
  induction fs with
  | nil => cases hget
  | cons f fs ih =>
    obtain ⟨known, w⟩ := f
    rw [List.map_cons, List.nodup_cons] at hnames
    rw [Fields.get?_cons] at hget
    by_cases hname : name = known
    · subst hname
      rw [if_pos rfl] at hget
      cases hget
      -- The name is not there again.
      refine .cons (fun rest hrest => readInto_self (h.map some rest hrest)) ?_
      exact feeds_other hnames.1 (feeds_done levels fs)
    · rw [if_neg hname] at hget
      refine .cons (fun rest hrest => readInto_other (Ne.symm hname) ?_) (ih hnames.2 hget)
      rw [readInto]
      exact (bind_of_ok (readColon_cons _) _).trans (skipValue_chars w hrest)

end

end Layout

namespace Shape

section

variable {α : Type} {levels : Nat} {name : String} {s : Shape α} {fs : Fields}

theorem reads_member_of_feeds {found : Option (Option α)}
    (h : Feeds (fun n => (Layout.member name s).readInto levels n) (none, ()) fs (found, ())) :
    (member name s).Reads (levels + 1) (.object fs) found.join := by
  have hrecord : (record "object" (.member name s)).Reads (levels + 1) (.object fs)
      (found.join, ()) := by
    intro rest _
    have hread := readFields_chars h (fields_fit fs ('\x7d' :: rest)) rest
    rw [chars_object_append]
    show (Layout.member name s).readObject (levels + 1) _ = _
    refine (bind_of_ok hread _).trans ?_
    cases found <;> rfl
  exact hrecord.map Prod.fst

/-- A member is read of an object as its value is. -/
theorem reads_member (hnames : (fs.map Prod.fst).Nodup) {v : Json} (hget : fs.get? name = some v)
    {a : α} (h : s.Reads levels v a) :
    (member name s).Reads (levels + 1) (.object fs) (some a) :=
  reads_member_of_feeds (Layout.feeds_member hnames hget h)

/-- There is no member of a name that no field has. -/
theorem reads_member_none (hget : fs.get? name = none) :
    (member name s).Reads (levels + 1) (.object fs) none := by
  have hnames : name ∉ fs.map Prod.fst := by
    intro hmem
    obtain ⟨e, he, rfl⟩ := List.mem_map.mp hmem
    exact absurd (List.lookup_eq_none_iff.mp hget e he) (by simp)
  exact reads_member_of_feeds (Layout.feeds_other hnames (Layout.feeds_done levels fs))

end

end Shape

end Harvest.Json
