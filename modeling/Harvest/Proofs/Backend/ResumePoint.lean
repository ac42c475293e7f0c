/-
  Harvest.Proofs.Backend.ResumePoint

  Where a fetch goes on. Every item carries the number of the line behind its own as its offset.
  A fetch that starts from the offset of an item, and wants no more than an earlier one did,
  gives those of the results behind the item that it wants (`results_resumed`): it passes over
  the lines in front, which the earlier fetch could read.
-/
import Harvest.Proofs.Backend.Stream
import Harvest.Proofs.Json.Integer
import Harvest.Proofs.Json.Parsed

namespace Harvest

/-! ## Items of records -/

namespace Record

/-- What a job has to know of the item of a record. -/
structure Shaped (next : Int) (i : Item) : Prop where
  uuid : i.uuid?.isSome = true
  updated : ∀ u, i.updated? = some u → u.isFinite = true
  offset : i.offset? = (Json.ofInt next).asInt64?
  ordered : i.fields.Ordered

/-- The fields that a job looks at are those that a record is given. -/
theorem shaped_fields (origin category id : String) (next : Int) (updated : Float)
    (record : Json) :
    Shaped next ⟨Fields.insertAll [] [
      ("backend_name", .string recordsName), ("category", .string category),
      ("origin", .string origin), (Item.uuidField, .string (uuid origin id)),
      (Item.updatedField, .ofFloat updated), (Item.offsetField, .ofInt next),
      ("data", record)]⟩ := by
  generalize hfront : Fields.insertAll [] [("backend_name", Json.string recordsName),
    ("category", .string category), ("origin", .string origin)] = front
  have hfields : Fields.insertAll [] [
      ("backend_name", .string recordsName), ("category", .string category),
      ("origin", .string origin), (Item.uuidField, .string (uuid origin id)),
      (Item.updatedField, .ofFloat updated), (Item.offsetField, .ofInt next),
      ("data", record)] =
      (((front.insert Item.uuidField (.string (uuid origin id))).insert Item.updatedField
        (.ofFloat updated)).insert Item.offsetField (.ofInt next)).insert "data" record := by
    rw [← hfront]
    rfl
  rw [hfields]
  have huuid : Item.uuidField ≠ "data" ∧ Item.uuidField ≠ Item.offsetField ∧
      Item.uuidField ≠ Item.updatedField := by decide
  have hupdated : Item.updatedField ≠ "data" ∧ Item.updatedField ≠ Item.offsetField := by decide
  have hoffset : Item.offsetField ≠ "data" := by decide
  constructor
  · unfold Item.uuid? Item.get?
    dsimp only
    rw [Fields.get?_insert_of_ne _ huuid.1, Fields.get?_insert_of_ne _ huuid.2.1,
      Fields.get?_insert_of_ne _ huuid.2.2, Fields.get?_insert_self]
    rfl
  · intro u hu
    unfold Item.updated? Item.get? at hu
    dsimp only at hu
    rw [Fields.get?_insert_of_ne _ hupdated.1, Fields.get?_insert_of_ne _ hupdated.2,
      Fields.get?_insert_self] at hu
    have hu : (Json.ofFloat updated).asFloat? = some u := hu
    unfold Json.ofFloat at hu
    split at hu
    · next hfinite =>
      cases hu
      exact hfinite
    · cases hu
  · unfold Item.offset? Item.get?
    dsimp only
    rw [Fields.get?_insert_of_ne _ hoffset, Fields.get?_insert_self]
    rfl
  · have hfront : front.Ordered := hfront ▸ Fields.Ordered.insertAll List.Pairwise.nil _
    exact (((hfront.insert _ _).insert _ _).insert _ _).insert _ _

/-- An item that is made of a record has an identifier, a finite time of update if any, and the
    number of the next line as its offset, and its fields are in order. -/
theorem shaped_of_toItem {origin category : String} {line next : Int} {record : Json} {i : Item}
    (h : toItem origin category line next record = .ok i) : Shaped next i := by
  unfold toItem at h
  dsimp only at h
  cases hid : id? record with
  | none =>
    rw [hid] at h
    cases h
  | some id =>
    rw [hid] at h
    cases hupdated : record.get? "updated" with
    | none =>
      rw [hupdated] at h
      cases h
    | some v =>
      rw [hupdated] at h
      cases hseconds : secondsOf v with
      | error e =>
        have h := (bind_of_error hseconds _).symm.trans h
        cases h
      | ok updated =>
        have h := (bind_of_ok hseconds _).symm.trans h
        cases h
        exact shaped_fields origin category id next updated record

end Record

/-! ## Reading with other filters -/

/-- Whether filters keep a result; they keep every error. -/
def Filters.keeps (f : Filters) : Except BackendError Item → Bool
  | .ok i => !f.skipsItem i
  | .error _ => true

@[simp] theorem Filters.keeps_ok (f : Filters) (i : Item) : f.keeps (.ok i) = !f.skipsItem i := rfl

@[simp] theorem Filters.keeps_error (f : Filters) (e : BackendError) :
    f.keeps (.error e) = true := rfl

/-- Filters want an item if they pass over neither it nor the line in front of its offset. -/
structure Filters.Wants (f : Filters) (i : Item) : Prop where
  item : f.skipsItem i = false
  line : ∃ line, i.offset? = some (line + 1) ∧ f.skipsLine line = false

namespace Lines

/-- A line is text, as even one that is passed over has to be. -/
def Readable (line : Bytes) : Prop := ∃ cs, Utf8.decode (chomp line) = .ok cs

/-- The same task with other filters. -/
def Task.filtered (task : Task) (filters : Filters) : Task := { task with filters }

theorem readLine_of_skipped {task : Task} {number : Int} {line : Bytes} (h : Readable line)
    (hskips : task.filters.skipsLine number = true) : readLine task number line = .nothing := by
  obtain ⟨cs, hcs⟩ := h
  unfold readLine
  rw [hcs]
  dsimp only
  rw [if_pos (by rw [hskips, Bool.or_true])]

/-- A line that is not refused is text. -/
theorem readable_of_readLine {task : Task} {number : Int} {line : Bytes}
    (h : ∀ e, readLine task number line ≠ .refused e) : Readable line := by
  unfold readLine at h
  cases hcs : Utf8.decode (chomp line) with
  | error f =>
    rw [hcs] at h
    exact absurd rfl (h (.io f.message))
  | ok cs => exact ⟨cs, hcs⟩

/-- A line that gives a record holds its text, and neither the line nor the item that is made of
    the record is passed over. -/
theorem readLine_eq_record {task : Task} {number : Int} {line : Bytes} {item : Item}
    {record : Json} (h : readLine task number line = .record item record) :
    (∃ cs, Utf8.decode (chomp line) = .ok cs ∧ Json.ofChars cs = .ok record) ∧
      Record.toItem task.origin task.category number (number + 1) record = .ok item ∧
      task.filters.skipsLine number = false ∧ task.filters.skipsItem item = false := by
  unfold readLine at h
  cases hcs : Utf8.decode (chomp line) with
  | error f =>
    rw [hcs] at h
    cases h
  | ok cs =>
    rw [hcs] at h
    dsimp only at h
    by_cases hskips : (Text.isBlankText cs || task.filters.skipsLine number) = true
    · rw [if_pos hskips] at h
      cases h
    · rw [if_neg hskips] at h
      rw [Bool.or_eq_true, not_or, Bool.not_eq_true, Bool.not_eq_true] at hskips
      cases hjson : Json.ofChars cs with
      | error e =>
        rw [hjson] at h
        cases h
      | ok parsed =>
        rw [hjson] at h
        dsimp only at h
        cases hitem : Record.toItem task.origin task.category number (number + 1) parsed with
        | error e =>
          rw [hitem] at h
          cases h
        | ok made =>
          rw [hitem] at h
          dsimp only at h
          by_cases hmade : task.filters.skipsItem made = true
          · rw [if_pos hmade] at h
            cases h
          · rw [if_neg hmade] at h
            cases h
            exact ⟨⟨cs, rfl, hjson⟩, hitem, hskips.2, Bool.eq_false_iff.mpr hmade⟩

/-- A record that is wanted is on a line that is not passed over, and its item is not passed
    over either. -/
theorem wanted_of_readLine {task : Task} {number : Int} {line : Bytes} {item : Item}
    {record : Json} (h : readLine task number line = .record item record) :
    task.filters.skipsLine number = false ∧ task.filters.skipsItem item = false ∧
      Record.Shaped (number + 1) item := by
  obtain ⟨-, hitem, hline, hskips⟩ := readLine_eq_record h
  exact ⟨hline, hskips, Record.shaped_of_toItem hitem⟩

/-- On a line that neither passes over, filters that want less give what the others give, but
    for an item that they pass over. -/
theorem readLine_narrowed {task : Task} {filters : Filters} {number : Int}
    (hline : task.filters.skipsLine number = false) (hline' : filters.skipsLine number = false)
    (hitem : ∀ i, task.filters.skipsItem i = true → filters.skipsItem i = true) (line : Bytes) :
    readLine (task.filtered filters) number line =
      match readLine task number line with
      | .nothing => .nothing
      | .refused e => .refused e
      | .record item record =>
        if filters.skipsItem item then .nothing else .record item record := by
  unfold readLine Task.filtered
  dsimp only
  cases Utf8.decode (chomp line) with
  | error f => rfl
  | ok cs =>
    dsimp only
    rw [hline, hline', Bool.or_false]
    by_cases hblank : Text.isBlankText cs = true
    · rw [if_pos hblank, if_pos hblank]
    · rw [if_neg hblank, if_neg hblank]
      cases Json.ofChars cs with
      | error e => rfl
      | ok record =>
        dsimp only
        cases Record.toItem task.origin task.category number (number + 1) record with
        | error e => rfl
        | ok item =>
          dsimp only
          by_cases hskips : task.filters.skipsItem item = true
          · rw [if_pos hskips, if_pos (hitem item hskips)]
          · rw [if_neg hskips]

/-! ## Results with other filters -/

/-- The number of the line behind several lines. -/
theorem number_cons (number : Int) (line : Bytes) (before : List Bytes) :
    number + ((line :: before).length : Int) = number + 1 + before.length := by
  rw [List.length_cons]
  omega

/-- Lines that are passed over give nothing. -/
theorem results_skipped (task : Task) {number : Int} {before : List Bytes}
    (hreadable : ∀ line ∈ before, Readable line)
    (hskips : number + before.length ≤ task.filters.offset) (after : List Bytes) :
    results task number (before ++ after) = results task (number + before.length) after := by
  induction before generalizing number with
  | nil =>
    rw [List.nil_append, List.length_nil, Int.natCast_zero, Int.add_zero]
  | cons line before ih =>
    rw [number_cons] at hskips ⊢
    have hskipsLine : task.filters.skipsLine number = true := by
      rw [Filters.skipsLine_eq_true_iff]
      omega
    have hnothing := readLine_of_skipped (hreadable line (List.mem_cons_self ..)) hskipsLine
    rw [List.cons_append, results_of_nothing hnothing, ih
      (fun l hl => hreadable l (List.mem_cons_of_mem _ hl)) hskips]

/-- From a line on that no filter passes over, filters that want less keep some of the
    results. -/
theorem results_narrowed {task : Task} {filters : Filters} {number : Int}
    (hline : task.filters.offset ≤ number) (hline' : filters.offset ≤ number)
    (hitem : ∀ i, task.filters.skipsItem i = true → filters.skipsItem i = true)
    (lines : List Bytes) :
    results (task.filtered filters) number lines =
      (results task number lines).filter filters.keeps := by
  induction lines generalizing number with
  | nil => rfl
  | cons line lines ih =>
    have hrest : results (task.filtered filters) (number + 1) lines =
        (results task (number + 1) lines).filter filters.keeps := ih (by omega) (by omega)
    have hread : task.filters.skipsLine number = false :=
      Filters.skipsLine_eq_false_iff.mpr hline
    have hread' : filters.skipsLine number = false := Filters.skipsLine_eq_false_iff.mpr hline'
    have hnarrowed := readLine_narrowed hread hread' hitem line
    cases hread : readLine task number line with
    | nothing =>
      rw [hread] at hnarrowed
      rw [results_of_nothing hread, results_of_nothing hnarrowed, hrest]
    | refused e =>
      rw [hread] at hnarrowed
      rw [results_of_refused hread, results_of_refused hnarrowed]
      rfl
    | record item record =>
      rw [hread] at hnarrowed
      dsimp only at hnarrowed
      rw [results_of_record hread, List.filter_cons]
      by_cases hskips : filters.skipsItem item = true
      · rw [if_pos hskips] at hnarrowed
        rw [results_of_nothing hnarrowed, hrest]
        simp [hskips]
      · rw [if_neg hskips] at hnarrowed
        rw [results_of_record hnarrowed, hrest]
        simp [hskips]

/-- An item is on a line of its own: the lines in front could be read, and the lines behind give
    what comes behind it. -/
def FoundOn (task : Task) (number : Int) (lines : List Bytes) (i : Item)
    (after : List (Except BackendError Item)) : Prop :=
  ∃ front line rest record, lines = front ++ line :: rest ∧
    (∀ l ∈ front ++ [line], Readable l) ∧
    readLine task (number + front.length) line = .record i record ∧
    results task (number + front.length + 1) rest = after

theorem FoundOn.first {task : Task} {number : Int} {line : Bytes} {i : Item} {record : Json}
    (hline : Readable line) (hrecord : readLine task number line = .record i record)
    (lines : List Bytes) :
    FoundOn task number (line :: lines) i (results task (number + 1) lines) := by
  refine ⟨[], line, lines, record, rfl, ?_, ?_, ?_⟩
  · simpa using hline
  · rw [List.length_nil, Int.natCast_zero, Int.add_zero]
    exact hrecord
  · rw [List.length_nil, Int.natCast_zero, Int.add_zero]

theorem FoundOn.cons {task : Task} {number : Int} {line : Bytes} {lines : List Bytes} {i : Item}
    {after : List (Except BackendError Item)} (h : FoundOn task (number + 1) lines i after)
    (hline : Readable line) : FoundOn task number (line :: lines) i after := by
  obtain ⟨front, l, rest, record, hlines, hreadable, hrecord, hafter⟩ := h
  refine ⟨line :: front, l, rest, record, ?_, ?_, ?_, ?_⟩
  · rw [hlines, List.cons_append]
  · exact List.forall_mem_cons.mpr ⟨hline, hreadable⟩
  · rw [number_cons]
    exact hrecord
  · rw [number_cons]
    exact hafter

/-- An item among the results is on a line of its own. -/
theorem results_split {task : Task} {number : Int} {lines : List Bytes}
    {before after : List (Except BackendError Item)} {i : Item}
    (h : results task number lines = before ++ .ok i :: after) :
    FoundOn task number lines i after := by
  induction lines generalizing number before with
  | nil =>
    have hlength := congrArg List.length h
    rw [List.length_append, List.length_cons] at hlength
    cases hlength
  | cons line lines ih =>
    cases hread : readLine task number line with
    | refused e =>
      rw [results_of_refused hread] at h
      cases before with
      | nil => cases h
      | cons b before =>
        have htail := (List.cons.inj h).2
        exact absurd htail.symm
          (List.append_ne_nil_of_right_ne_nil before (List.cons_ne_nil (.ok i) after))
    | nothing =>
      rw [results_of_nothing hread] at h
      have hline : Readable line := readable_of_readLine (by rw [hread]; exact fun e => nofun)
      exact (ih h).cons hline
    | record item record =>
      rw [results_of_record hread] at h
      have hline : Readable line := readable_of_readLine (by rw [hread]; exact fun e => nofun)
      cases before with
      | nil =>
        obtain ⟨hi, rfl⟩ := List.cons.inj h
        cases hi
        exact .first hline hread lines
      | cons b before => exact (ih (List.cons.inj h).2).cons hline

/-- A fetch that starts from the offset of an item among the results, and wants no more than
    they were wanted with, gives those of the results behind the item that it wants. -/
theorem results_resumed {task : Task} {filters : Filters} {lines : List Bytes}
    {before after : List (Except BackendError Item)} {i : Item}
    (h : results task 0 lines = before ++ .ok i :: after)
    (hoffset : i.offset? = some filters.offset)
    (hitem : ∀ i, task.filters.skipsItem i = true → filters.skipsItem i = true) :
    results (task.filtered filters) 0 lines = after.filter filters.keeps := by
  obtain ⟨front, line, rest, record, hlines, hreadable, hrecord, hafter⟩ := results_split h
  obtain ⟨hskips, -, hshaped⟩ := wanted_of_readLine hrecord
  rw [hshaped.offset] at hoffset
  have hstart : filters.offset = 0 + front.length + 1 := Json.eq_of_asInt64?_ofInt hoffset
  have hlength : (0 : Int) + ((front ++ [line]).length : Int) = 0 + front.length + 1 := by
    rw [List.length_append, List.length_singleton]
    omega
  have hfront : task.filters.offset ≤ 0 + front.length := by
    rw [Filters.skipsLine_eq_false_iff] at hskips
    omega
  have hsplit : lines = (front ++ [line]) ++ rest := by
    rw [hlines, List.append_assoc, List.singleton_append]
  rw [hsplit, results_skipped (task.filtered filters) hreadable
    (by rw [hlength]; exact Int.le_of_eq hstart.symm) rest, hlength,
    results_narrowed (by omega) (by omega) hitem, hafter]

/-! ## Offsets of the results -/

/-- The items of a file are wanted. -/
theorem wants_of_mem_goods {task : Task} {number : Int} {lines : List Bytes} (hpos : 0 ≤ number)
    (hfits : number + lines.length ≤ Number.greatestSigned64) :
    ∀ i ∈ goods (results task number lines), task.filters.Wants i := by
  induction lines generalizing number with
  | nil =>
    intro i hi
    cases hi
  | cons line lines ih =>
    rw [number_cons] at hfits
    have hrest : ∀ i ∈ goods (results task (number + 1) lines), task.filters.Wants i :=
      ih (by omega) hfits
    cases hread : readLine task number line with
    | nothing =>
      rw [results_of_nothing hread]
      exact hrest
    | refused e =>
      rw [results_of_refused hread]
      intro i hi
      cases hi
    | record item record =>
      obtain ⟨hline, hitem, hshaped⟩ := wanted_of_readLine hread
      rw [results_of_record hread]
      intro i hi
      cases hmarks : item.marks with
      | error e =>
        rw [goods_of_unmarked hmarks] at hi
        cases hi
      | ok m =>
        rw [goods_of_marks hmarks] at hi
        rcases List.mem_cons.mp hi with rfl | hi
        · refine ⟨hitem, number, ?_, hline⟩
          rw [hshaped.offset, Json.asInt64?_ofInt (by omega) (by omega)]
        · exact hrest i hi

/-- The offsets of the items of a file grow from each to the next. -/
theorem offsets_of_goods {task : Task} {number : Int} {lines : List Bytes} (hpos : 0 ≤ number)
    (hfits : number + lines.length ≤ Number.greatestSigned64) :
    ∃ offsets : List Int, (goods (results task number lines)).map Item.offset? =
      offsets.map some ∧ (∀ n ∈ offsets, number < n) ∧ offsets.Pairwise (· < ·) := by
  induction lines generalizing number with
  | nil => exact ⟨[], rfl, fun _ hn => absurd hn List.not_mem_nil, List.Pairwise.nil⟩
  | cons line lines ih =>
    rw [number_cons] at hfits
    have hrest := ih (by omega) hfits
    obtain ⟨offsets, hoffsets, hgreater, hsorted⟩ := hrest
    cases hread : readLine task number line with
    | nothing =>
      rw [results_of_nothing hread]
      exact ⟨offsets, hoffsets, fun n hn => by have := hgreater n hn; omega, hsorted⟩
    | refused e =>
      rw [results_of_refused hread]
      exact ⟨[], rfl, fun _ hn => absurd hn List.not_mem_nil, List.Pairwise.nil⟩
    | record item record =>
      obtain ⟨-, -, hshaped⟩ := wanted_of_readLine hread
      have hoffset : item.offset? = some (number + 1) := by
        rw [hshaped.offset, Json.asInt64?_ofInt (by omega) (by omega)]
      rw [results_of_record hread]
      cases hmarks : item.marks with
      | error e =>
        rw [goods_of_unmarked hmarks]
        exact ⟨[], rfl, fun _ hn => absurd hn List.not_mem_nil, List.Pairwise.nil⟩
      | ok m =>
        rw [goods_of_marks hmarks]
        refine ⟨(number + 1) :: offsets, ?_, ?_, ?_⟩
        · rw [List.map_cons, hoffset, hoffsets, List.map_cons]
        · intro n hn
          rcases List.mem_cons.mp hn with rfl | hn
          · omega
          · have hlt := hgreater n hn
            omega
        · exact List.pairwise_cons.mpr ⟨hgreater, hsorted⟩

/-! ## Items that filters keep -/

/-- Every item of a file is shaped as a job expects. -/
theorem shaped_of_mem_results {task : Task} {number : Int} {lines : List Bytes} {i : Item}
    (h : .ok i ∈ results task number lines) : ∃ next, Record.Shaped next i := by
  induction lines generalizing number with
  | nil => cases h
  | cons line lines ih =>
    cases hread : readLine task number line with
    | nothing =>
      rw [results_of_nothing hread] at h
      exact ih h
    | refused e =>
      rw [results_of_refused hread, List.mem_singleton] at h
      cases h
    | record item record =>
      rw [results_of_record hread] at h
      rcases List.mem_cons.mp h with hi | h
      · cases hi
        obtain ⟨-, -, hshaped⟩ := wanted_of_readLine hread
        exact ⟨number + 1, hshaped⟩
      · exact ih h

end Lines

/-- An item of a record that lacks what a job has to know is passed over by no filters. -/
theorem Record.Shaped.not_skipped {next : Int} {i : Item} (h : Record.Shaped next i)
    {e : JobError} (hmarks : i.marks = .error e) (f : Filters) : f.skipsItem i = false := by
  have hupdated : i.updated? = none := by
    cases hu : i.updated? with
    | none => rfl
    | some u =>
      obtain ⟨uuid, huuid⟩ := Option.isSome_iff_exists.mp h.uuid
      have hmarked : i.marks = .ok ⟨uuid, u, i.offset?⟩ :=
        Item.marks_eq_ok_iff.mpr ⟨huuid, hu, h.updated u hu, rfl⟩
      rw [hmarked] at hmarks
      cases hmarks
  exact f.skipsItem_of_undated hupdated

/-- Filters that keep some results keep some of the items that a job can pass on, and leave what
    comes behind them. -/
theorem goods_filter {f : Filters} {rs : List (Except BackendError Item)}
    (hshaped : ∀ i, .ok i ∈ rs → ∃ next, Record.Shaped next i) :
    goods (rs.filter f.keeps) = (goods rs).filter (fun i => !f.skipsItem i) ∧
      ending (rs.filter f.keeps) = ending rs := by
  induction rs with
  | nil => exact ⟨rfl, rfl⟩
  | cons r rs ih =>
    obtain ⟨hgoods, hending⟩ := ih fun i hi => hshaped i (List.mem_cons_of_mem _ hi)
    cases r with
    | error e => exact ⟨rfl, rfl⟩
    | ok i =>
      obtain ⟨line, hi⟩ := hshaped i (List.mem_cons_self ..)
      rw [List.filter_cons]
      cases hskips : f.skipsItem i with
      | true =>
        have hdropped : ¬ f.keeps (.ok i) = true := by simp [hskips]
        rw [if_neg hdropped]
        cases hmarks : i.marks with
        | error e =>
          rw [hi.not_skipped hmarks f] at hskips
          cases hskips
        | ok m =>
          rw [goods_of_marks hmarks, ending_of_marks hmarks, hgoods, hending, List.filter_cons]
          simp [hskips]
      | false =>
        have hkept : f.keeps (.ok i) = true := by simp [hskips]
        rw [if_pos hkept]
        cases hmarks : i.marks with
        | error e =>
          rw [goods_of_unmarked hmarks, goods_of_unmarked hmarks, ending_of_unmarked hmarks,
            ending_of_unmarked hmarks]
          exact ⟨rfl, rfl⟩
        | ok m =>
          rw [goods_of_marks hmarks, goods_of_marks hmarks, ending_of_marks hmarks,
            ending_of_marks hmarks, hgoods, hending, List.filter_cons]
          simp [hskips]

end Harvest
