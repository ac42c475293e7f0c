/-
  Harvest.Proofs.Job.ResumeArgs

  The arguments with which a run goes on. They ask for the records from the latest time of update
  so far on, behind the last item so far (`ofArgs_resumeArgs`). A date whose year has more than
  four digits is written with a sign, with which a backend that reads dates in their strict form
  refuses it (`ofArgs_resumeArgs_of_signed`).
-/
import Harvest.Proofs.Calendar.Text
import Harvest.Proofs.Job.Account
import Harvest.Proofs.Json.Integer

namespace Harvest

/-- A date that the strict form can write. -/
def Calendar.Instant.HasStrictYear (t : Calendar.Instant) : Prop :=
  0 ≤ t.date.year ∧ t.date.year ≤ 9999

instance (t : Calendar.Instant) : Decidable t.HasStrictYear :=
  inferInstanceAs (Decidable (0 ≤ t.date.year ∧ t.date.year ≤ 9999))

namespace Filters

/-- The filters with another date to start from, if there is one. -/
def since (filters : Filters) : Option Calendar.Instant → Filters
  | none => filters
  | some t => { filters with fromMillis := some t.toMillis }

@[simp] theorem since_none (filters : Filters) : filters.since none = filters := rfl

@[simp] theorem fromMillis_since (filters : Filters) (t : Calendar.Instant) :
    (filters.since (some t)).fromMillis = some t.toMillis := rfl

/-- Arguments are accepted if the date and the line among them are. -/
theorem ofArgs_eq_ok_iff {args : Fields} {f : Filters} :
    ofArgs args = .ok f ↔ dateOf args = .ok f.fromMillis ∧ offsetOf args = .ok f.offset := by
  constructor
  · intro h
    obtain ⟨fromMillis, hdate, hrest⟩ := of_bind_eq_ok h
    obtain ⟨offset, hoffset, hmade⟩ := of_bind_eq_ok hrest
    cases hmade
    exact ⟨hdate, hoffset⟩
  · rintro ⟨hdate, hoffset⟩
    exact (bind_of_ok hdate _).trans (bind_of_ok hoffset _)

end Filters

namespace Item

/-- The later of a time and that of an item. -/
def laterThan (latest : Option Float) (i : Item) : Option Float :=
  match i.marks with
  | .ok m => Checkpoint.laterDate latest m.updated
  | .error _ => latest

/-- The latest time of update of several items. -/
def latest (items : List Item) : Option Float := items.foldl laterThan none

/-- The date from which a run goes on behind several items. -/
def nextDate (items : List Item) : Option Calendar.Instant :=
  latest items >>= Calendar.Instant.ofSeconds?

/-- A run can go on behind several items: the date to go on from can be read back. -/
def CanGoOn (items : List Item) : Prop := ∀ t, nextDate items = some t → t.HasStrictYear

end Item

namespace Checkpoint

/-! ## The marks of a checkpoint -/

theorem maxDate_recordItem (c : Checkpoint) (i : Item) :
    (c.recordItem i).maxDate = Item.laterThan c.maxDate i := by
  unfold Item.laterThan
  rcases c.recordItem_cases i with ⟨m, hm, h⟩ | ⟨⟨e, he⟩, h⟩
  · rw [h, hm]
    rfl
  · rw [h, he]

theorem maxDate_recordAll (c : Checkpoint) (items : List Item) :
    (c.recordAll items).maxDate = items.foldl Item.laterThan c.maxDate := by
  induction items generalizing c with
  | nil => rfl
  | cons i items ih => rw [recordAll_cons, ih, List.foldl_cons, maxDate_recordItem]

/-- The date to go on from is that of the items that were recorded. -/
theorem fromDate_recordAll {c : Checkpoint} (h : c.maxDate = none) (items : List Item) :
    (c.recordAll items).fromDate = Item.nextDate items := by
  unfold fromDate Item.nextDate Item.latest
  rw [maxDate_recordAll, h]

/-- The offset to go on from is that of the last item, if it has one. -/
theorem offset_recordAll {c : Checkpoint} {items : List Item} {i : Item} {m : Marks} {k : Int}
    (hlast : items.getLast? = some i) (hm : i.marks = .ok m) (hk : i.offset? = some k) :
    (c.recordAll items).offset = some k := by
  obtain ⟨front, rfl⟩ := List.getLast?_eq_some_iff.mp hlast
  obtain ⟨-, -, -, hoffset⟩ := Item.marks_eq_ok_iff.mp hm
  rw [recordAll_append, recordAll_cons, recordAll_nil, recordItem_of_marks hm]
  show m.offset.or _ = some k
  rw [← hoffset, hk, Option.some_or]

theorem recordItem_tagged (c : Checkpoint) (i : Item) (job : String) :
    c.recordItem (i.tagged job) = c.recordItem i := by
  unfold recordItem
  rw [Item.marks_tagged]

/-- Tagging items changes nothing of what is recorded of them. -/
theorem recordAll_tagged (c : Checkpoint) (items : List Item) (job : String) :
    c.recordAll (items.map fun i => i.tagged job) = c.recordAll items := by
  induction items generalizing c with
  | nil => rfl
  | cons i items ih =>
    rw [List.map_cons, recordAll_cons, recordAll_cons, ih, recordItem_tagged]

theorem recordItem_setResumes (c : Checkpoint) (n : Nat) (i : Item) :
    ({ c with resumes := n } : Checkpoint).recordItem i = { c.recordItem i with resumes := n } := by
  unfold recordItem
  cases i.marks with
  | error e => rfl
  | ok m => rfl

/-- The runs that went on are counted apart from the items. -/
theorem recordAll_resumes (c : Checkpoint) (n : Nat) (items : List Item) :
    ({ c with resumes := n } : Checkpoint).recordAll items =
      { c.recordAll items with resumes := n } := by
  induction items generalizing c with
  | nil => rfl
  | cons i items ih => rw [recordAll_cons, recordAll_cons, recordItem_setResumes, ih]

/-! ## The arguments to go on with -/

/-- A checkpoint sets no argument but the date and the offset. -/
theorem get?_resumeArgs (c : Checkpoint) (args : Fields) {name : String}
    (hdate : name ≠ dateArgument) (hoffset : name ≠ offsetArgument) :
    (c.resumeArgs args).get? name = args.get? name := by
  unfold resumeArgs
  cases c.fromDate with
  | none =>
    cases c.offset with
    | none => rfl
    | some n => exact Fields.get?_insert_of_ne _ hoffset _
  | some t =>
    have hinsert : (args.insert dateArgument (.string t.millisText)).get? name =
        args.get? name := Fields.get?_insert_of_ne _ hdate _
    cases c.offset with
    | none => exact hinsert
    | some n => exact (Fields.get?_insert_of_ne _ hoffset _).trans hinsert

theorem get?_resumeArgs_offset {c : Checkpoint} {n : Int} (h : c.offset = some n)
    (args : Fields) : (c.resumeArgs args).get? offsetArgument = some (.ofInt n) := by
  unfold resumeArgs
  rw [h]
  exact Fields.get?_insert_self _ _ _

theorem get?_resumeArgs_offset_of_none {c : Checkpoint} (h : c.offset = none) (args : Fields) :
    (c.resumeArgs args).get? offsetArgument = args.get? offsetArgument := by
  have hne : offsetArgument ≠ dateArgument := by decide
  unfold resumeArgs
  rw [h]
  cases c.fromDate with
  | none => rfl
  | some t => exact Fields.get?_insert_of_ne _ hne _

theorem get?_resumeArgs_date (c : Checkpoint) (args : Fields) :
    (c.resumeArgs args).get? dateArgument =
      match c.fromDate with
      | some t => some (.string t.millisText)
      | none => args.get? dateArgument := by
  have hne : dateArgument ≠ offsetArgument := by decide
  unfold resumeArgs
  cases c.fromDate with
  | none =>
    cases c.offset with
    | none => rfl
    | some n => exact Fields.get?_insert_of_ne _ hne _
  | some t =>
    have hinsert : (args.insert dateArgument (.string t.millisText)).get? dateArgument =
        some (.string t.millisText) := Fields.get?_insert_self _ _ _
    cases c.offset with
    | none => exact hinsert
    | some n => exact (Fields.get?_insert_of_ne _ hne _).trans hinsert

/-- Going on leaves the path. -/
theorem requiredPath_resumeArgs (c : Checkpoint) (args : Fields) :
    requiredPath (c.resumeArgs args) = requiredPath args := by
  unfold requiredPath
  rw [c.get?_resumeArgs args (by decide) (by decide)]

/-- The filters of a run that goes on from a checkpoint at an offset. -/
def nextFilters (c : Checkpoint) (filters : Filters) (offset : Int) : Filters :=
  { filters.since c.fromDate with offset }

theorem fromDate_ofMillis {c : Checkpoint} {t : Calendar.Instant} (h : c.fromDate = some t) :
    ∃ ms, Calendar.Instant.ofMillis? ms = some t := by
  unfold fromDate at h
  cases hdate : c.maxDate with
  | none =>
    rw [hdate] at h
    cases h
  | some x =>
    rw [hdate] at h
    have h : Calendar.Instant.ofSeconds? x = some t := h
    unfold Calendar.Instant.ofSeconds? at h
    split at h
    · exact ⟨_, h⟩
    · cases h

theorem offsetOf_resumeArgs {c : Checkpoint} {n : Int} (h : c.offset = some n) (hpos : 0 ≤ n)
    (hfits : n ≤ Number.greatestSigned64) (args : Fields) :
    Filters.offsetOf (c.resumeArgs args) = .ok n := by
  have hget : (c.resumeArgs args).get? offsetArgument = some (.number (.integer n)) :=
    get?_resumeArgs_offset h args
  have hint : (Json.number (.integer n)).asInt64? = some n := Json.asInt64?_ofInt hpos hfits
  unfold Filters.offsetOf
  rw [hget]
  dsimp only
  rw [hint]
  dsimp only
  rw [if_pos hpos]

theorem offsetOf_resumeArgs_of_none {c : Checkpoint} (h : c.offset = none) (args : Fields) :
    Filters.offsetOf (c.resumeArgs args) = Filters.offsetOf args := by
  unfold Filters.offsetOf
  rw [get?_resumeArgs_offset_of_none h]

/-- The date that is written is read back, whatever date the caller gave. -/
theorem dateOf_resumeArgs_of_date {c : Checkpoint} {t : Calendar.Instant}
    (ht : c.fromDate = some t) (hyear : t.HasStrictYear) (args : Fields) :
    Filters.dateOf (c.resumeArgs args) = .ok (some t.toMillis) := by
  -- It is a date to the millisecond, so that its text says all of it.
  obtain ⟨ms, hms⟩ := fromDate_ofMillis ht
  have hstrict := Calendar.ofStrict_chars hms hyear
  simp only [Filters.dateOf, get?_resumeArgs_date, ht, Calendar.Instant.millisText,
    String.toList_ofList, hstrict]

theorem dateOf_resumeArgs_of_none {c : Checkpoint} (h : c.fromDate = none) (args : Fields) :
    Filters.dateOf (c.resumeArgs args) = Filters.dateOf args := by
  simp only [Filters.dateOf, get?_resumeArgs_date, h]

/-- The latest date takes the place of the one to start from, if its year can be written. -/
theorem dateOf_resumeArgs {c : Checkpoint} {args : Fields} {filters : Filters}
    (hargs : Filters.dateOf args = .ok filters.fromMillis)
    (hyear : ∀ t, c.fromDate = some t → t.HasStrictYear) :
    Filters.dateOf (c.resumeArgs args) = .ok (filters.since c.fromDate).fromMillis := by
  cases hfrom : c.fromDate with
  | none => exact (dateOf_resumeArgs_of_none hfrom args).trans hargs
  | some t => exact dateOf_resumeArgs_of_date hfrom (hyear t hfrom) args

/-- A run that goes on asks for the records from the latest date on, behind the last item. -/
theorem ofArgs_resumeArgs {c : Checkpoint} {args : Fields} {filters : Filters} {n : Int}
    (hargs : Filters.ofArgs args = .ok filters) (h : c.offset = some n) (hpos : 0 ≤ n)
    (hfits : n ≤ Number.greatestSigned64) (hyear : ∀ t, c.fromDate = some t → t.HasStrictYear) :
    Filters.ofArgs (c.resumeArgs args) = .ok (c.nextFilters filters n) :=
  Filters.ofArgs_eq_ok_iff.mpr ⟨dateOf_resumeArgs (Filters.ofArgs_eq_ok_iff.mp hargs).1 hyear,
    offsetOf_resumeArgs h hpos hfits args⟩

/-- A latest date whose year needs a sign is refused. -/
theorem ofArgs_resumeArgs_of_signed {c : Checkpoint} {args : Fields} {t : Calendar.Instant}
    (hfrom : c.fromDate = some t) (hyear : ¬ t.HasStrictYear) :
    ∃ words, Filters.ofArgs (c.resumeArgs args) = .error (.invalidArgument words) := by
  obtain ⟨f, hf⟩ := Calendar.ofStrict_chars_of_signed hyear .millis
  have hdate : Filters.dateOf (c.resumeArgs args) =
      .error (.invalidArgument ("from_date: " ++ f.message)) := by
    unfold Filters.dateOf
    rw [get?_resumeArgs_date, hfrom]
    dsimp only
    rw [Calendar.Instant.millisText, String.toList_ofList, hf]
  exact ⟨_, bind_of_error hdate _⟩

end Checkpoint

end Harvest
