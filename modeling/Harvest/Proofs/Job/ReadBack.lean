/-
  Harvest.Proofs.Job.ReadBack

  The resume point of a checkpoint, written among the arguments of a fetch and read back. The
  greatest time of update is written as a date to the millisecond, and the offset as a number;
  the filters of the arguments have just that millisecond and that line
  (`resume_point_read_back`). What the checkpoint has not is left to the caller, and no other
  argument is touched.
-/
import Harvest.Proofs.Calendar.Years
import Harvest.Proofs.Job.ResumeArgs

namespace Harvest

/-- The milliseconds of a time in seconds, to the nearest one. -/
def nearestMillis (seconds : Float) : Int := Number.roundToInt64 (seconds * 1000)

namespace Checkpoint

/-- A checkpoint with a place to go on from that can be written: a line that can be numbered, and
    a time whose nearest millisecond lies in the years 0 to 9999. -/
structure Writable (c : Checkpoint) : Prop where
  line : ∀ n, c.offset = some n → 0 ≤ n ∧ n ≤ Number.greatestSigned64
  time : ∀ x, c.maxDate = some x → x.isFinite = true ∧
    Calendar.firstMilli 0 ≤ nearestMillis x ∧ nearestMillis x < Calendar.firstMilli 10000

/-- Arguments whose own date and line are valid where a checkpoint has none to put in their
    place. -/
structure Completes (c : Checkpoint) (args : Fields) : Prop where
  line : c.offset = none → ∃ n, Filters.offsetOf args = .ok n
  time : c.maxDate = none → ∃ ms, Filters.dateOf args = .ok ms

variable {c : Checkpoint} {args : Fields}

/-! ## The date -/

/-- A time in a year of four digits is an instant to go on from, that of its nearest
    millisecond. -/
theorem exists_fromDate {x : Float} (hx : c.maxDate = some x) (hfinite : x.isFinite = true)
    (hleast : Calendar.firstMilli 0 ≤ nearestMillis x)
    (hpast : nearestMillis x < Calendar.firstMilli 10000) :
    ∃ t, c.fromDate = some t ∧ t.HasStrictYear ∧ t.toMillis = nearestMillis x := by
  obtain ⟨t, ht, hyear⟩ :=
    Calendar.exists_ofMillis? hleast hpast (by decide) (by decide)
  refine ⟨t, ?_, ⟨hyear.1, by omega⟩, Calendar.Instant.ofMillis?_toMillis ht⟩
  have hseconds : Calendar.Instant.ofSeconds? x = some t := by
    unfold Calendar.Instant.ofSeconds?
    rw [if_pos hfinite]
    exact ht
  simp only [fromDate, hx, Option.bind_eq_bind, Option.bind_some, hseconds]

/-! ## All arguments -/

/-- An argument stays what it was unless the checkpoint has something to put in its place. -/
theorem get?_resumeArgs_of_kept {name : String} (hdate : name = dateArgument → c.maxDate = none)
    (hline : name = offsetArgument → c.offset = none) :
    (c.resumeArgs args).get? name = args.get? name := by
  by_cases hd : name = dateArgument
  · have hnone : c.fromDate = none := by
      simp only [fromDate, hdate hd, Option.bind_eq_bind, Option.bind_none]
    rw [hd, get?_resumeArgs_date, hnone]
  · by_cases ho : name = offsetArgument
    · rw [ho, get?_resumeArgs_offset_of_none (hline ho)]
    · exact c.get?_resumeArgs args hd ho

/-- The resume point of a checkpoint is read back from the arguments that it is written to: the
    filters start from the nearest millisecond of the greatest time and at the line of the offset,
    and from the caller's where the checkpoint has none. The other arguments are what they were,
    and an item of the greatest time is still wanted. -/
theorem resume_point_read_back (hwritable : c.Writable) (hargs : c.Completes args) :
    ∃ f, Filters.ofArgs (c.resumeArgs args) = .ok f ∧
      (∀ x, c.maxDate = some x → f.fromMillis = some (nearestMillis x)) ∧
      (c.maxDate = none → Filters.dateOf args = .ok f.fromMillis) ∧
      (∀ n, c.offset = some n → f.offset = n) ∧
      (c.offset = none → Filters.offsetOf args = .ok f.offset) ∧
      (∀ name, (name = dateArgument → c.maxDate = none) →
        (name = offsetArgument → c.offset = none) →
        (c.resumeArgs args).get? name = args.get? name) ∧
      ∀ i : Item, i.updated? = c.maxDate → f.skipsItem i = false := by
  -- The date and the line are read apart from each other.
  have hdate : ∃ from?, Filters.dateOf (c.resumeArgs args) = .ok from? ∧
      (∀ x, c.maxDate = some x → from? = some (nearestMillis x)) ∧
      (c.maxDate = none → Filters.dateOf args = .ok from?) := by
    cases hx : c.maxDate with
    | none =>
      obtain ⟨from?, hfrom⟩ := hargs.time hx
      have hnone : c.fromDate = none := by
        simp only [fromDate, hx, Option.bind_eq_bind, Option.bind_none]
      exact ⟨from?, (dateOf_resumeArgs_of_none hnone args).trans hfrom, nofun, fun _ => hfrom⟩
    | some x =>
      obtain ⟨hfinite, hleast, hpast⟩ := hwritable.time x hx
      obtain ⟨t, ht, hyear, hmillis⟩ := exists_fromDate hx hfinite hleast hpast
      refine ⟨some (nearestMillis x), ?_, ?_, nofun⟩
      · rw [dateOf_resumeArgs_of_date ht hyear, hmillis]
      · rintro y ⟨⟩
        rfl
  have hline : ∃ line, Filters.offsetOf (c.resumeArgs args) = .ok line ∧
      (∀ n, c.offset = some n → line = n) ∧
      (c.offset = none → Filters.offsetOf args = .ok line) := by
    cases hn : c.offset with
    | none =>
      obtain ⟨line, hline⟩ := hargs.line hn
      exact ⟨line, (offsetOf_resumeArgs_of_none hn args).trans hline, nofun, fun _ => hline⟩
    | some n =>
      obtain ⟨hpos, hfits⟩ := hwritable.line n hn
      refine ⟨n, offsetOf_resumeArgs hn hpos hfits args, ?_, nofun⟩
      rintro m ⟨⟩
      rfl
  obtain ⟨from?, hread, hfrom, hcaller⟩ := hdate
  obtain ⟨line, hreadLine, hlineOf, hcallerLine⟩ := hline
  refine ⟨⟨from?, line⟩, Filters.ofArgs_eq_ok_iff.mpr ⟨hread, hreadLine⟩, hfrom, hcaller, hlineOf,
    hcallerLine, fun name => get?_resumeArgs_of_kept, ?_⟩
  intro i hi
  cases hx : c.maxDate with
  | none => exact Filters.skipsItem_of_undated (hi.trans hx) _
  | some x =>
    -- The item is rounded as the time was, and its millisecond is the first that is wanted.
    rw [hfrom x hx]
    simp only [Filters.skipsItem, hi.trans hx]
    exact decide_eq_false (Int.lt_irrefl _)

/-- A checkpoint in the last millisecond of the year 9999. -/
def atLastMilli : Checkpoint :=
  ⟨"job-1", "task-1", "jsonl", "item", some "a", some 253402300799.9994, 3, some 7, 1⟩

/-- The caller's date, which is none, is replaced, and so is the line. -/
theorem last_milli_read_back :
    let args : Fields := [(dateArgument, .string "soon"), (offsetArgument, .ofInt 2),
      (pathArgument, .string "records.jsonl")]
    atLastMilli.Writable ∧ atLastMilli.Completes args ∧
      Filters.ofArgs (atLastMilli.resumeArgs args) = .ok ⟨some 253402300799999, 7⟩ ∧
      requiredPath (atLastMilli.resumeArgs args) = .ok "records.jsonl" := by
  intro args
  have hmillis : nearestMillis 253402300799.9994 = 253402300799999 := by decide +kernel
  have hwritable : atLastMilli.Writable := by
    constructor
    · rintro n ⟨⟩
      decide
    · rintro x ⟨⟩
      rw [hmillis]
      exact ⟨by decide +kernel, by decide, by decide⟩
  have hargs : atLastMilli.Completes args := ⟨nofun, nofun⟩
  obtain ⟨⟨from?, line⟩, hread, hfrom, -, hline, -, hkept, -⟩ :=
    resume_point_read_back hwritable hargs
  have hmilli : from? = some (nearestMillis 253402300799.9994) := hfrom _ rfl
  have hseven : line = 7 := hline 7 rfl
  rw [hmilli, hseven, hmillis] at hread
  refine ⟨hwritable, hargs, hread, ?_⟩
  unfold requiredPath
  rw [hkept pathArgument (by decide) (by decide)]
  rfl

end Checkpoint

end Harvest
