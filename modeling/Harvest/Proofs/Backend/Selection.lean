/-
  Harvest.Proofs.Backend.Selection

  Which lines of a file of records a fetch selects, told line by line and not step by step. A line
  ends the stream if it is no text, or if it has to be examined and holds no record with an
  identifier and a date (`EndsAt`); a line in front of the first such one is selected if it has to
  be examined and its record is not dated too early (`Wanted`). What the lines of a file give, one
  after the other, is just that selection (`selects_select`).
-/
import Harvest.Proofs.Backend.ResumePoint
import Harvest.Proofs.Files.Cutting
import Harvest.Proofs.Json.Sorted

namespace Harvest

/-! ## Records -/

namespace Record

variable {origin category id : String} {line next : Int} {record : Json} {seconds : Float}
  {item : Item}

/-- The own identifier of a record: a text, or the text of a number. -/
inductive HasId (record : Json) : String → Prop where
  | text {id : String} (h : record.get? "id" = some (.string id)) : HasId record id
  | number {n : Number} (h : record.get? "id" = some (.number n)) :
      HasId record (String.ofList n.chars)

/-- The time of the last update of a record, in seconds: a number, or a date to the millisecond. -/
inductive HasDate (record : Json) : Float → Prop where
  | number {n : Number} (h : record.get? "updated" = some (.number n)) : HasDate record n.toFloat
  | text {s : String} {t : Calendar.Instant} (h : record.get? "updated" = some (.string s))
      (hdate : Calendar.Instant.ofStrict s.toList = .ok t) :
      HasDate record (Number.floatOfInt t.toMillis / 1000)

/-- The item of a record, which goes on from the next line. -/
def itemOf (origin category id : String) (next : Int) (seconds : Float) (record : Json) : Item :=
  ⟨Fields.insertAll [] [
    ("backend_name", .string recordsName), ("category", .string category),
    ("origin", .string origin), (Item.uuidField, .string (uuid origin id)),
    (Item.updatedField, .ofFloat seconds), (Item.offsetField, .ofInt next),
    ("data", record)]⟩

/-- The fields of the item of a record are those that it is given. -/
theorem get?_itemOf (name : String) :
    (itemOf origin category id next seconds record).get? name = Fields.get? [
      ("backend_name", .string recordsName), ("category", .string category),
      ("origin", .string origin), (Item.uuidField, .string (uuid origin id)),
      (Item.updatedField, .ofFloat seconds), (Item.offsetField, .ofInt next),
      ("data", record)] name := by
  have hnames : ["backend_name", "category", "origin", Item.uuidField, Item.updatedField,
      Item.offsetField, "data"].Nodup := by decide
  refine (Fields.get?_insertAll ?_ [] name).trans Option.or_none
  exact hnames

theorem hasId_iff : HasId record id ↔ id? record = some id := by
  unfold id?
  constructor
  · intro h
    cases h with
    | text h => rw [h]
    | number h => rw [h]
  · intro h
    split at h
    · next s hid =>
      cases h
      exact .text hid
    · next n hid =>
      cases h
      exact .number hid
    · cases h

theorem hasDate_iff :
    HasDate record seconds ↔
      ∃ updated, record.get? "updated" = some updated ∧ secondsOf updated = .ok seconds := by
  constructor
  · intro h
    cases h with
    | number h => exact ⟨_, h, rfl⟩
    | text h hdate =>
      refine ⟨_, h, ?_⟩
      simp only [secondsOf, hdate]
  · rintro ⟨updated, hupdated, hseconds⟩
    unfold secondsOf at hseconds
    split at hseconds
    · split at hseconds
      · next hdate =>
        cases hseconds
        exact .text hupdated hdate
      · cases hseconds
    · cases hseconds
      exact .number hupdated
    · cases hseconds

/-- A record gives an item if it has an identifier and a date. -/
theorem toItem_eq_ok_iff :
    toItem origin category line next record = .ok item ↔
      ∃ id seconds, HasId record id ∧ HasDate record seconds ∧
        item = itemOf origin category id next seconds record := by
  simp only [hasId_iff, hasDate_iff]
  unfold toItem
  dsimp only
  cases hid : id? record with
  | none =>
    constructor
    · intro h
      cases h
    · rintro ⟨id, seconds, hnone, -⟩
      cases hnone
  | some id =>
    cases hupdated : record.get? "updated" with
    | none =>
      constructor
      · intro h
        cases h
      · rintro ⟨id, seconds, -, ⟨updated, hnone, -⟩, -⟩
        cases hnone
    | some updated =>
      cases hseconds : secondsOf updated with
      | error e =>
        constructor
        · intro h
          have h := (bind_of_error hseconds _).symm.trans h
          cases h
        · rintro ⟨id, seconds, -, ⟨updated', hsome, hok⟩, -⟩
          cases hsome
          rw [hseconds] at hok
          cases hok
      | ok seconds =>
        constructor
        · intro h
          have h := (bind_of_ok hseconds _).symm.trans h
          cases h
          exact ⟨id, seconds, rfl, ⟨updated, rfl, hseconds⟩, rfl⟩
        · rintro ⟨id', seconds', hsome, ⟨updated', hupdated', hok⟩, rfl⟩
          cases hsome
          cases hupdated'
          rw [hseconds] at hok
          cases hok
          exact bind_of_ok hseconds _

/-- What a record without an identifier or a date gives is an error of its text. -/
theorem parse_of_toItem {e : BackendError}
    (h : toItem origin category line next record = .error e) : ∃ words, e = .parse words := by
  unfold toItem at h
  dsimp only at h
  cases hid : id? record with
  | none =>
    rw [hid] at h
    cases h
    exact ⟨_, rfl⟩
  | some id =>
    rw [hid] at h
    cases hupdated : record.get? "updated" with
    | none =>
      rw [hupdated] at h
      cases h
      exact ⟨_, rfl⟩
    | some updated =>
      rw [hupdated] at h
      cases hseconds : secondsOf updated with
      | ok seconds =>
        have h := (bind_of_ok hseconds _).symm.trans h
        cases h
      | error e' =>
        have h := (bind_of_error hseconds _).symm.trans h
        cases h
        unfold secondsOf at hseconds
        split at hseconds
        · split at hseconds
          · cases hseconds
          · cases hseconds
            exact ⟨_, rfl⟩
        · cases hseconds
        · cases hseconds
          exact ⟨_, rfl⟩

end Record

namespace Lines

/-! ## The fate of a line -/

/-- A record that a fetch finds: the number of its line, and its item. -/
structure Find where
  line : Nat
  record : Json
  item : Item

/-- A line has to be examined: it is text, it is not blank, and it is not in front of the line to
    start at. -/
structure Examined (filters : Filters) (number : Nat) (line : Bytes) (cs : List Char) : Prop where
  text : Utf8.encode cs = line
  written : Text.isBlankText cs = false
  asked : filters.offset ≤ number

/-- A line ends the stream with an error. Any line does that is no text, even one that need not be
    examined; one that is examined does if it holds no record with an identifier and a date. -/
inductive EndsAt (filters : Filters) (number : Nat) (line : Bytes) : BackendError → Prop where
  | notText (words : String) (h : ∀ cs, Utf8.encode cs ≠ line) :
      EndsAt filters number line (.io words)
  | notJson (words : String) {cs : List Char} (h : Examined filters number line cs)
      (hjson : ∀ record, Json.ofChars cs ≠ .ok record) : EndsAt filters number line (.parse words)
  | noRecord (words : String) {cs : List Char} {record : Json}
      (h : Examined filters number line cs) (hjson : Json.ofChars cs = .ok record)
      (hlacks : (∀ id, ¬ Record.HasId record id) ∨ ∀ seconds, ¬ Record.HasDate record seconds) :
      EndsAt filters number line (.parse words)

/-- A line gives an item: it is examined and holds a record with an identifier and a date, and the
    date of the item, rounded to milliseconds, is not in front of the one to start from. -/
structure Wanted (origin category : String) (filters : Filters) (line : Bytes) (f : Find) :
    Prop where
  record : ∃ cs, Examined filters f.line line cs ∧ Json.ofChars cs = .ok f.record
  item : ∃ id seconds, Record.HasId f.record id ∧ Record.HasDate f.record seconds ∧
    f.item = Record.itemOf origin category id (f.line + 1) seconds f.record
  late : ∀ least updated, filters.fromMillis = some least → f.item.updated? = some updated →
    least ≤ Number.roundToInt64 (updated * 1000)

/-- What the lines of a file select, numbered from `number` on: the records that are wanted on the
    lines in front of the first one that ends the stream, in order. There are `passed` of those
    lines. -/
structure SelectsUpTo (origin category : String) (filters : Filters) (number : Nat)
    (lines : List Bytes) (finds : List Find) (ending : Option BackendError) (passed : Nat) :
    Prop where
  goesOn : ∀ i line, i < passed → lines[i]? = some line →
    ∀ e, ¬ EndsAt filters (number + i) line e
  whole : ending = none → passed = lines.length
  stops : ∀ e, ending = some e →
    ∃ line, lines[passed]? = some line ∧ EndsAt filters (number + passed) line e
  ordered : finds.Pairwise fun f g => f.line < g.line
  finds : ∀ f, f ∈ finds ↔ ∃ i line, i < passed ∧ lines[i]? = some line ∧ f.line = number + i ∧
    Wanted origin category filters line f

/-- What the lines of a file select, numbered from zero on. -/
def Selects (origin category : String) (filters : Filters) (lines : List Bytes)
    (finds : List Find) (ending : Option BackendError) : Prop :=
  ∃ passed, SelectsUpTo origin category filters 0 lines finds ending passed

section

variable {task : Task} {number : Nat} {line : Bytes} {e : BackendError} {f : Find}

/-- What a line gives that is examined. -/
theorem readLine_of_examined {cs : List Char}
    (h : Examined task.filters number (chomp line) cs) :
    readLine task number line =
      match Json.ofChars cs with
      | .error r => .refused (.parse ("line " ++ toString (number : Int) ++ ": " ++ r.message))
      | .ok record =>
        match Record.toItem task.origin task.category number (number + 1) record with
        | .error e => .refused e
        | .ok item => if task.filters.skipsItem item then .nothing else .record item record := by
  have htext := Utf8.decode_eq_ok_iff.mpr h.text
  unfold readLine
  rw [htext]
  dsimp only
  rw [h.written, Filters.skipsLine_eq_false_iff.mpr h.asked]
  rfl

/-- A line is no text, or gives nothing, or is examined. -/
theorem examined_cases (task : Task) (number : Nat) (line : Bytes) :
    (∃ words, readLine task number line = .refused (.io words) ∧
      ∀ cs, Utf8.encode cs ≠ chomp line) ∨
    readLine task number line = .nothing ∨
    ∃ cs, Examined task.filters number (chomp line) cs := by
  cases hcs : Utf8.decode (chomp line) with
  | error f =>
    refine .inl ⟨f.message, ?_, ?_⟩
    · unfold readLine
      rw [hcs]
    · intro cs htext
      rw [Utf8.decode_eq_ok_iff.mpr htext] at hcs
      cases hcs
  | ok cs =>
    right
    by_cases hskips : (Text.isBlankText cs || task.filters.skipsLine number) = true
    · left
      unfold readLine
      rw [hcs]
      exact if_pos hskips
    · right
      rw [Bool.not_eq_true, Bool.or_eq_false_iff, Filters.skipsLine_eq_false_iff] at hskips
      exact ⟨cs, Utf8.decode_eq_ok_iff.mp hcs, hskips.1, hskips.2⟩

/-- A line that ends a stream is refused. -/
theorem EndsAt.refused (h : EndsAt task.filters number (chomp line) e) :
    ∃ e', readLine task number line = .refused e' := by
  cases h with
  | notText words h =>
    cases hcs : Utf8.decode (chomp line) with
    | error f =>
      refine ⟨.io f.message, ?_⟩
      unfold readLine
      rw [hcs]
    | ok cs => exact absurd (Utf8.decode_eq_ok_iff.mp hcs) (h cs)
  | @notJson words cs h hjson =>
    rw [readLine_of_examined h]
    cases hread : Json.ofChars cs with
    | error r => exact ⟨_, rfl⟩
    | ok record => exact absurd hread (hjson record)
  | @noRecord words cs record h hjson hlacks =>
    rw [readLine_of_examined h, hjson]
    dsimp only
    cases hitem : Record.toItem task.origin task.category number (number + 1) record with
    | error e' => exact ⟨e', rfl⟩
    | ok item =>
      obtain ⟨id, seconds, hid, hdate, -⟩ := Record.toItem_eq_ok_iff.mp hitem
      rcases hlacks with hnone | hnone
      · exact absurd hid (hnone id)
      · exact absurd hdate (hnone seconds)

/-- A line that is refused ends a stream. -/
theorem endsAt_of_refused (h : readLine task number line = .refused e) :
    EndsAt task.filters number (chomp line) e := by
  rcases examined_cases task number line with ⟨words, hwords, htext⟩ | hnothing | ⟨cs, hexamined⟩
  · rw [hwords] at h
    cases h
    exact .notText words htext
  · rw [hnothing] at h
    cases h
  · rw [readLine_of_examined hexamined] at h
    cases hjson : Json.ofChars cs with
    | error r =>
      rw [hjson] at h
      cases h
      refine .notJson _ hexamined fun record hrecord => ?_
      rw [hjson] at hrecord
      cases hrecord
    | ok record =>
      rw [hjson] at h
      dsimp only at h
      cases hitem : Record.toItem task.origin task.category number (number + 1) record with
      | error e' =>
        rw [hitem] at h
        cases h
        obtain ⟨words, rfl⟩ := Record.parse_of_toItem hitem
        refine .noRecord words hexamined hjson ?_
        -- With both there would be an item.
        refine Classical.byContradiction fun hboth => ?_
        simp only [not_or, Classical.not_forall, Classical.not_not] at hboth
        obtain ⟨⟨id, hid⟩, seconds, hdate⟩ := hboth
        rw [Record.toItem_eq_ok_iff.mpr ⟨id, seconds, hid, hdate, rfl⟩] at hitem
        cases hitem
      | ok item =>
        rw [hitem] at h
        dsimp only at h
        split at h <;> cases h

/-- A line that gives an item gives it when it is read. -/
theorem Wanted.readLine (h : Wanted task.origin task.category task.filters (chomp line) f) :
    Lines.readLine task f.line line = .record f.item f.record := by
  obtain ⟨cs, hexamined, hjson⟩ := h.record
  have hitem : Record.toItem task.origin task.category f.line (f.line + 1) f.record = .ok f.item :=
    Record.toItem_eq_ok_iff.mpr h.item
  have hlate : task.filters.skipsItem f.item = false := by
    rw [← Bool.not_eq_true, Filters.skipsItem_eq_true_iff]
    rintro ⟨least, updated, hleast, hupdated, hearly⟩
    have hnot := h.late least updated hleast hupdated
    omega
  rw [readLine_of_examined hexamined, hjson]
  dsimp only
  rw [hitem]
  dsimp only
  rw [hlate]
  rfl

/-- What is given when a line is read is given by it. -/
theorem wanted_of_record {item : Item} {record : Json}
    (h : readLine task number line = .record item record) :
    Wanted task.origin task.category task.filters (chomp line) ⟨number, record, item⟩ := by
  obtain ⟨⟨cs, htext, hjson⟩, hitem, -, hskips⟩ := readLine_eq_record h
  rcases examined_cases task number line with ⟨words, hwords, -⟩ | hnothing | ⟨ds, hexamined⟩
  · rw [hwords] at h
    cases h
  · rw [hnothing] at h
    cases h
  · have hsame := Utf8.decode_eq_ok_iff.mpr hexamined.text
    rw [htext] at hsame
    cases hsame
    refine ⟨⟨cs, hexamined, hjson⟩, Record.toItem_eq_ok_iff.mp hitem, ?_⟩
    intro least updated hleast hupdated
    rw [Bool.eq_false_iff, Ne, Filters.skipsItem_eq_true_iff] at hskips
    exact Int.not_lt.mp fun hearly => hskips ⟨least, updated, hleast, hupdated, hearly⟩

end

/-! ## The selection of a file -/

/-- The records that several lines give up to the first error, and that error; the lines are
    numbered from `number` on. -/
def select (task : Task) : Nat → List Bytes → List Find × Option BackendError
  | _, [] => ([], none)
  | number, line :: lines =>
    match readLine task number line with
    | .nothing => select task (number + 1) lines
    | .refused e => ([], some e)
    | .record item record =>
      let rest := select task (number + 1) lines
      (⟨number, record, item⟩ :: rest.1, rest.2)

section

variable {task : Task} {number : Nat} {line : Bytes}

theorem select_of_nothing (h : readLine task number line = .nothing) (lines : List Bytes) :
    select task number (line :: lines) = select task (number + 1) lines := by
  rw [select, h]

theorem select_of_refused {e : BackendError} (h : readLine task number line = .refused e)
    (lines : List Bytes) : select task number (line :: lines) = ([], some e) := by
  rw [select, h]

theorem select_of_record {item : Item} {record : Json}
    (h : readLine task number line = .record item record) (lines : List Bytes) :
    select task number (line :: lines) =
      (⟨number, record, item⟩ :: (select task (number + 1) lines).1,
        (select task (number + 1) lines).2) := by
  rw [select, h]

end

/-- What a selection gives: the items, and the error behind them. -/
def given (finds : List Find) (ending : Option BackendError) : List (Except BackendError Item) :=
  finds.map (fun f => .ok f.item) ++ ending.toList.map .error

namespace SelectsUpTo

variable {origin category : String} {filters : Filters} {number passed : Nat} {line : Bytes}
  {lines : List Bytes} {finds : List Find} {ending : Option BackendError} {f : Find}

theorem line_of_mem (h : SelectsUpTo origin category filters number lines finds ending passed)
    (hf : f ∈ finds) : number ≤ f.line := by
  obtain ⟨i, line, -, -, hline, -⟩ := (h.finds f).mp hf
  omega

/-- A line in front of others that does not end the stream moves the selection of the others on by
    one, and may be selected itself. -/
theorem cons (h : SelectsUpTo origin category filters (number + 1) lines finds ending passed)
    (hgoesOn : ∀ e, ¬ EndsAt filters number line e) (first : List Find)
    (hone : first.length ≤ 1)
    (hfirst : ∀ f, f ∈ first ↔ f.line = number ∧ Wanted origin category filters line f) :
    SelectsUpTo origin category filters number (line :: lines) (first ++ finds) ending
      (passed + 1) where
  goesOn := by
    intro i l hi hl
    cases i with
    | zero =>
      cases hl
      exact hgoesOn
    | succ i =>
      have hrest := h.goesOn i l (by omega) hl
      rwa [show number + 1 + i = number + (i + 1) by omega] at hrest
  whole := by
    intro hnone
    rw [h.whole hnone, List.length_cons]
  stops := by
    intro e he
    obtain ⟨l, hl, hends⟩ := h.stops e he
    exact ⟨l, hl, by rwa [show number + 1 + passed = number + (passed + 1) by omega] at hends⟩
  ordered := by
    rw [List.pairwise_append]
    refine ⟨?_, h.ordered, ?_⟩
    · cases first with
      | nil => exact .nil
      | cons f first =>
        have hnone : first = [] := List.eq_nil_of_length_eq_zero (by simpa using hone)
        rw [hnone]
        exact List.pairwise_singleton _ _
    · intro f hf g hg
      have hline := ((hfirst f).mp hf).1
      have hbehind := h.line_of_mem hg
      omega
  finds := by
    intro f
    rw [List.mem_append, hfirst, h.finds]
    constructor
    · rintro (⟨hline, hwanted⟩ | ⟨i, l, hi, hl, hline, hwanted⟩)
      · exact ⟨0, line, by omega, rfl, hline, hwanted⟩
      · exact ⟨i + 1, l, by omega, hl, by omega, hwanted⟩
    · rintro ⟨i, l, hi, hl, hline, hwanted⟩
      cases i with
      | zero =>
        cases hl
        exact .inl ⟨hline, hwanted⟩
      | succ i => exact .inr ⟨i, l, by omega, hl, by omega, hwanted⟩

end SelectsUpTo

/-- What the lines of a file give when they are read in order is their selection. -/
theorem selectsUpTo_select (task : Task) (number : Nat) (lines : List Bytes) :
    ∃ passed, SelectsUpTo task.origin task.category task.filters number (lines.map chomp)
      (select task number lines).1 (select task number lines).2 passed := by
  -- The first line settles whether there is a selection of the others at all; the numbers of the
  -- others are moved on by one.
  induction lines generalizing number with
  | nil =>
    refine ⟨0, nofun, fun _ => rfl, nofun, .nil, ?_⟩
    intro f
    constructor
    · exact nofun
    · rintro ⟨i, l, hi, -⟩
      cases hi
  | cons line lines ih =>
    obtain ⟨passed, hrest⟩ := ih (number + 1)
    rw [List.map_cons]
    have hgoesOn : (∀ e, readLine task number line ≠ .refused e) →
        ∀ e, ¬ EndsAt task.filters number (chomp line) e := by
      intro hnot e hends
      obtain ⟨e', he'⟩ := hends.refused
      exact hnot e' he'
    cases hline : readLine task number line with
    | refused e =>
      -- Nothing is passed, so that nothing is found.
      rw [select_of_refused hline]
      refine ⟨0, nofun, nofun, ?_, .nil, ?_⟩
      · rintro e' he'
        cases he'
        exact ⟨chomp line, rfl, endsAt_of_refused hline⟩
      · intro f
        constructor
        · exact nofun
        · rintro ⟨i, l, hi, -⟩
          cases hi
    | nothing =>
      rw [select_of_nothing hline]
      refine ⟨passed + 1, hrest.cons (hgoesOn ?_) [] (Nat.zero_le _) ?_⟩
      · rw [hline]
        exact nofun
      · intro f
        constructor
        · exact nofun
        · rintro ⟨rfl, hwanted⟩
          rw [hwanted.readLine] at hline
          cases hline
    | record item record =>
      rw [select_of_record hline]
      refine ⟨passed + 1, hrest.cons (hgoesOn ?_) [⟨number, record, item⟩]
        (Nat.le_refl _) ?_⟩
      · rw [hline]
        exact nofun
      · intro f
        rw [List.mem_singleton]
        constructor
        · rintro rfl
          exact ⟨rfl, wanted_of_record hline⟩
        · rintro ⟨rfl, hwanted⟩
          rw [hwanted.readLine] at hline
          cases hline
          rfl

/-- The selection of a file, whatever octets it holds. -/
theorem selects_select (task : Task) (content : Bytes) :
    Selects task.origin task.category task.filters (textLines content)
      (select task 0 (linesOf content)).1 (select task 0 (linesOf content)).2 := by
  rw [← map_chomp_linesOf]
  exact selectsUpTo_select task 0 (linesOf content)

end Lines

end Harvest
