/-
  Harvest.Proofs.Job.StartDates

  The dates that the runs of a job start from. A run that goes on starts from the latest time of
  update of the items taken so far, to the nearest millisecond, if the calendar reaches that far.
  Times become numbers of milliseconds in their order, and those become instants in theirs
  (`Calendar.Instant.le_of_ofMillis?`), so that a run never starts from an earlier date than a
  run before it; but the date is lost, and the caller's takes its place, as soon as an item is
  taken whose time lies behind the last date of the calendar (`start_dates_advance_iff`).
-/
import Harvest.Proofs.Calendar.Relaxed
import Harvest.Proofs.Job.Attempts
import Harvest.Proofs.Number.Rounding

namespace Harvest

open Calendar (Instant)

/-! ## Instants of a number of milliseconds -/

namespace Calendar.Instant

theorem ofMillis?_eq_some_iff {ms : Int} {t : Instant} :
    ofMillis? ms = some t ↔
      inRange (ms / 1000) = true ∧ ⟨ms / 1000, (ms % 1000).toNat * 1000000⟩ = t := by
  unfold ofMillis?
  dsimp only
  split <;> simp_all

theorem inRange_iff {seconds : Int} :
    inRange seconds = true ↔ leastSecond ≤ seconds ∧ seconds ≤ greatestSecond := by
  simp [inRange]

/-- More milliseconds never make an earlier instant. -/
theorem le_of_ofMillis? {ms later : Int} {t t' : Instant} (hle : ms ≤ later)
    (h : ofMillis? ms = some t) (h' : ofMillis? later = some t') : t.le t' = true := by
  obtain ⟨-, rfl⟩ := ofMillis?_eq_some_iff.mp h
  obtain ⟨-, rfl⟩ := ofMillis?_eq_some_iff.mp h'
  simp only [le, Bool.or_eq_true, Bool.and_eq_true, decide_eq_true_eq, beq_iff_eq]
  omega

/-- Behind an instant, milliseconds make another one as long as the last second of the calendar
    is not exceeded. -/
theorem ofMillis?_eq_none_iff_of_le {ms later : Int} {t : Instant} (hle : ms ≤ later)
    (h : ofMillis? ms = some t) : ofMillis? later = none ↔ greatestSecond < later / 1000 := by
  obtain ⟨hrange, -⟩ := ofMillis?_eq_some_iff.mp h
  have hleast : leastSecond ≤ later / 1000 := by
    have hms := (inRange_iff.mp hrange).1
    omega
  unfold ofMillis?
  dsimp only
  rw [ite_eq_right_iff, inRange_iff]
  constructor
  · intro hnone
    refine Int.not_le.mp ?_
    intro hwithin
    cases hnone ⟨hleast, hwithin⟩
  · rintro hpast ⟨-, hwithin⟩
    omega

end Calendar.Instant

/-! ## The latest time of update to the millisecond -/

namespace Item

/-- The time of update, to the nearest millisecond. -/
def millis? (i : Item) : Option Int :=
  i.updated?.map fun updated => Number.roundToInt64 (updated * 1000)

/-- The time of update lies behind the last second of the calendar. -/
def PastCalendar (i : Item) : Prop :=
  ∃ ms, i.millis? = some ms ∧ Instant.greatestSecond < ms / 1000

/-- A time of update of some of the items, to the millisecond, that none of their times
    exceeds. -/
structure LatestMillis (taken : List Item) (ms : Int) : Prop where
  attained : ∃ i ∈ taken, i.millis? = some ms
  bound : ∀ i ∈ taken, ∀ other, i.millis? = some other → other ≤ ms

/-- An item that has its marks has a finite time of update. -/
theorem isFinite_of_marked {i : Item} {updated : Float} (hmarked : ∃ m, i.marks = .ok m)
    (hupdated : i.updated? = some updated) : updated.isFinite = true := by
  obtain ⟨m, hm⟩ := hmarked
  obtain ⟨-, hmupdated, hfinite, -⟩ := marks_eq_ok_iff.mp hm
  rw [hupdated, Option.some.injEq] at hmupdated
  rw [hmupdated]
  exact hfinite

/-- The latest time is the latest one to the millisecond, too. -/
theorem IsLatest.millis {taken : List Item} {greatest : Float}
    (h : IsLatest taken (some greatest)) (hmarked : ∀ i ∈ taken, ∃ m, i.marks = .ok m) :
    LatestMillis taken (Number.roundToInt64 (greatest * 1000)) := by
  obtain ⟨⟨i, hi, hgreatest⟩, hmax⟩ := h
  refine ⟨⟨i, hi, by rw [millis?, hgreatest, Option.map_some]⟩, ?_⟩
  intro k hk other hother
  obtain ⟨updated, hupdated, rfl⟩ := Option.map_eq_some_iff.mp hother
  have hfinite := isFinite_of_marked (hmarked k hk) hupdated
  have hgreatestFinite := isFinite_of_marked (hmarked i hi) hgreatest
  exact Number.roundToInt64_thousand_mono hfinite hgreatestFinite (hmax k hk updated hupdated)

/-- The latest time of more items is not earlier. -/
theorem LatestMillis.le {taken more : List Item} {ms later : Int} (h : LatestMillis taken ms)
    (h' : LatestMillis more later) (hsubset : taken ⊆ more) : ms ≤ later := by
  obtain ⟨i, hi, hms⟩ := h.attained
  exact h'.bound i (hsubset hi) ms hms

/-- Some of the items lie behind the calendar exactly if the latest time does. -/
theorem LatestMillis.exists_pastCalendar_iff {taken : List Item} {ms : Int}
    (h : LatestMillis taken ms) :
    (∃ i ∈ taken, i.PastCalendar) ↔ Instant.greatestSecond < ms / 1000 := by
  constructor
  · rintro ⟨i, hi, other, hother, hpast⟩
    have hle := h.bound i hi other hother
    omega
  · intro hpast
    obtain ⟨i, hi, hms⟩ := h.attained
    exact ⟨i, hi, ms, hms, hpast⟩

end Item

namespace Checkpoint.Accounts

variable {c : Checkpoint} {taken : List Item} {resumes : Nat}

/-- There is a date to start from only if something was taken. -/
theorem exists_mem_of_fromDate (h : c.Accounts taken resumes) {t : Instant}
    (hfrom : c.fromDate = some t) : ∃ i, i ∈ taken := by
  have hlatest := h.maxDate
  obtain ⟨greatest, hgreatest, -⟩ := Option.bind_eq_some_iff.mp hfrom
  rw [hgreatest] at hlatest
  obtain ⟨⟨i, hi, -⟩, -⟩ := hlatest
  exact ⟨i, hi⟩

/-- The date to start from is that of the latest time of the items taken, if it has one. -/
theorem fromDate_eq_ofMillis? (h : c.Accounts taken resumes) {i : Item} (hi : i ∈ taken) :
    ∃ ms, Item.LatestMillis taken ms ∧ c.fromDate = Instant.ofMillis? ms := by
  have hlatest := h.maxDate
  unfold fromDate
  cases hdate : c.maxDate with
  | none =>
    rw [hdate] at hlatest
    have hnone : taken = [] := hlatest
    rw [hnone] at hi
    cases hi
  | some greatest =>
    rw [hdate] at hlatest
    refine ⟨_, hlatest.millis h.marked, ?_⟩
    have hfinite : greatest.isFinite = true := by
      obtain ⟨⟨j, hj, hgreatest⟩, -⟩ := hlatest
      exact Item.isFinite_of_marked (h.marked j hj) hgreatest
    show Instant.ofSeconds? greatest = _
    unfold Instant.ofSeconds?
    rw [if_pos hfinite]

/-- If a date to start from is known, then behind more items it is not an earlier one; and it is
    not known any more exactly if one of the items lies behind the calendar. -/
theorem fromDate_of_subset {c' : Checkpoint} {taken' : List Item} {resumes' : Nat}
    (h : c.Accounts taken resumes) (h' : c'.Accounts taken' resumes') (hsubset : taken ⊆ taken')
    {t : Instant} (hfrom : c.fromDate = some t) :
    (∀ t', c'.fromDate = some t' → t.le t' = true) ∧
      (c'.fromDate = none ↔ ∃ i ∈ taken', i.PastCalendar) := by
  obtain ⟨i, hi⟩ := h.exists_mem_of_fromDate hfrom
  obtain ⟨ms, hlatest, hms⟩ := h.fromDate_eq_ofMillis? hi
  obtain ⟨later, hlatest', hlater⟩ := h'.fromDate_eq_ofMillis? (hsubset hi)
  have hle : ms ≤ later := hlatest.le hlatest' hsubset
  rw [hms] at hfrom
  rw [hlater, hlatest'.exists_pastCalendar_iff]
  exact ⟨fun t' ht' => Instant.le_of_ofMillis? hle hfrom ht',
    Instant.ofMillis?_eq_none_iff_of_le hle hfrom⟩

end Checkpoint.Accounts

/-! ## The dates of the runs -/

namespace Request

variable {β κ : Type}

/-- The date that a run is given to start from: none for the first run, and then that of the
    checkpoint of the run before. -/
def startDate (r : Request) (job : Job β κ) (world : World β κ) : Nat → Option Instant
  | 0 => none
  | k + 1 => (r.series false job world k).job.checkpoint.fromDate

/-- The arguments carry a text of the date, or whatever the caller gave if there is no date. -/
def Carries (r : Request) (args : Fields) : Option Instant → Prop
  | none => args.get? dateArgument = r.args.get? dateArgument
  | some t => ∃ text, args.get? dateArgument = some (.string text) ∧
      Instant.ofRelaxed text.toList = .ok t

/-- Each run is asked for with the date that it is given to start from. -/
theorem carries_startDate (r : Request) (job : Job β κ) (world : World β κ) (k : Nat) :
    r.Carries (r.fetchArgs job world k) (r.startDate job world k) := by
  cases k with
  | zero => exact rfl
  | succ k =>
    have hdate := (r.series false job world k).job.checkpoint.get?_resumeArgs_date r.args
    show r.Carries ((r.series false job world k).job.checkpoint.resumeArgs r.args)
      (r.series false job world k).job.checkpoint.fromDate
    cases hfrom : (r.series false job world k).job.checkpoint.fromDate with
    | none =>
      rw [hfrom] at hdate
      exact hdate
    | some t =>
      rw [hfrom] at hdate
      obtain ⟨ms, hms⟩ := Checkpoint.fromDate_ofMillis hfrom
      exact ⟨t.millisText, hdate, Instant.ofRelaxed_millisText hms⟩

/-- What was taken up to a run is not taken back by a later one. -/
theorem takenUpTo_subset (r : Request) (job : Job β κ) (world : World β κ) {k l : Nat}
    (h : k ≤ l) : r.takenUpTo job world k ⊆ r.takenUpTo job world l := by
  induction h with
  | refl => exact List.Subset.refl _
  | step _ ih =>
    rw [takenUpTo_succ]
    exact List.subset_append_of_subset_left _ ih

/-- Of two runs the later one starts from no earlier date, and it loses the date exactly if an
    item was taken before it that lies behind the calendar. -/
theorem startDate_of_lt {r : Request} {job : Job β κ} (h : r.Ready job) (world : World β κ)
    {k l : Nat} (hlt : k < l) {t : Instant} (ht : r.startDate job world k = some t) :
    (∀ t', r.startDate job world l = some t' → t.le t' = true) ∧
      (r.startDate job world l = none ↔
        ∃ i ∈ r.takenUpTo job world (l - 1), i.PastCalendar) := by
  cases k with
  | zero => cases ht
  | succ k =>
    cases l with
    | zero => exact absurd hlt (Nat.not_lt_zero _)
    | succ l =>
      have hsubset := r.takenUpTo_subset job world (show k ≤ l by omega)
      exact (series_accounts h world k).fromDate_of_subset (series_accounts h world l) hsubset ht

end Request

/-- Executing a request asks the backend for each run with the date that the checkpoint gives the
    run to start from, in a text that is read back as that date. Once there is such a date, no
    later run starts from an earlier one; and a later run falls back to the date of the caller
    exactly if the queue took an item before it whose time of update lies behind the last date of
    the calendar. -/
theorem start_dates_advance_iff {β κ : Type} {r : Request} {registry : Registry β}
    {queue : Queue κ} {fresh : String} {world : World β κ} {job : Job β κ}
    (hsetUp : r.setUp registry queue (r.jobId.getD fresh) world.env.files = .ok job)
    (harchiving : validateArchiving job.backend r.archive = .ok ()) :
    (∃ n, r.execute registry.watched queue fresh (world.pair []) =
        (r.execute registry queue fresh world).watched
          ((List.range (n + 1)).map fun k => r.call (r.fetchArgs job world k))) ∧
      (∀ k, r.Carries (r.fetchArgs job world k) (r.startDate job world k)) ∧
      ∀ k l t, k < l → r.startDate job world k = some t →
        (∀ t', r.startDate job world l = some t' → t.le t' = true) ∧
          (r.startDate job world l = none ↔
            ∃ i ∈ r.takenUpTo job world (l - 1), i.PastCalendar) := by
  have hready := Request.ready_of_setUp hsetUp
  obtain ⟨n, -, hwatched⟩ := Request.execute_watched hsetUp harchiving
  exact ⟨⟨n, hwatched⟩, r.carries_startDate job world,
    fun k l t hlt ht => Request.startDate_of_lt hready world hlt ht⟩

/-- A request for the records from a date on, which may fail twice before it has to end well. -/
def sinceSixty : Request :=
  { Request.make "task" "feed" "item" with
    jobId := some "job"
    args := [(dateArgument, .string "1960-01-01T00:00:00Z")]
    maxRetries := 3 }

/-- The job of the request, whose backend plays a script. -/
def sinceSixtyJob : Job Scripted.Play Memory :=
  ⟨"job", "task", "item", Scripted.backend ⟨"feed", ["item"], false, true⟩, Queue.memory,
    "items", .shut, .start "job" "task" "feed" "item"⟩

/-- The world of a script whose first two entries fail behind an item each, the second one of
    which is dated thirty million years ahead. -/
def farAhead : World Scripted.Play Memory :=
  let dated (updated : Int) : Except BackendError Item :=
    .ok ⟨[(Item.updatedField, .ofInt updated), (Item.uuidField, .string "a")]⟩
  ⟨⟨⟨[], []⟩, ⟨fun _ => ⟨0, 0⟩, 0⟩,
    ⟨[.gives [dated 100, .error (.fetch "gone")],
      .gives [dated 1000000000000000, .error (.fetch "gone")]], .gives [], []⟩⟩, .empty⟩

/-- The second run starts from the date of the first item, and the third one again from the
    date of the caller, since the second item lies behind the calendar. -/
theorem falls_back_behind_calendar :
    let registry : Registry Scripted.Play := ⟨[sinceSixtyJob.backend]⟩
    sinceSixty.setUp registry Queue.memory "job" farAhead.env.files = .ok sinceSixtyJob ∧
      ((sinceSixty.execute registry Queue.memory "other" farAhead).world.env.own.calls.map
          fun call => call.args.get? dateArgument >>= Json.asString?) =
        [some "1960-01-01T00:00:00Z", some "1970-01-01T00:01:40.000Z",
          some "1960-01-01T00:00:00Z"] ∧
      sinceSixty.startDate sinceSixtyJob farAhead 1 = some ⟨100, 0⟩ ∧
      sinceSixty.startDate sinceSixtyJob farAhead 2 = none ∧
      ∃ i ∈ sinceSixty.takenUpTo sinceSixtyJob farAhead 1, i.PastCalendar := by
  intro registry
  have hsetUp : sinceSixty.setUp registry Queue.memory (sinceSixty.jobId.getD "other")
      farAhead.env.files = .ok sinceSixtyJob := rfl
  obtain ⟨-, -, hdates⟩ := start_dates_advance_iff hsetUp rfl
  have hfirst : sinceSixty.startDate sinceSixtyJob farAhead 1 = some ⟨100, 0⟩ := by
    decide +kernel
  have hsecond : sinceSixty.startDate sinceSixtyJob farAhead 2 = none := by decide +kernel
  obtain ⟨-, hlost⟩ := hdates 1 2 _ (by decide) hfirst
  exact ⟨hsetUp, by decide +kernel, hfirst, hsecond, hlost.mp hsecond⟩

end Harvest
