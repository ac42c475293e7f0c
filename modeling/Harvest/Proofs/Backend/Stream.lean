/-
  Harvest.Proofs.Backend.Stream

  What a fetch from a file of records gives. The records of a file that are wanted are a list
  (`Lines.results`): they come line by line, and the list ends with the first error. A fetch
  looks at the file anew for each item, and what it gives is that list as long as the file stays
  what it was, but that an archive may refuse a record and cut it short (`fetch_yields`).
-/
import Harvest.Backend.Lines
import Harvest.Proofs.Job.Account
import Harvest.Proofs.Outcome

namespace Harvest

/-! ## Lines that are left -/

theorem linesOf_flatten_tail {bs line : Bytes} {ls : List Bytes} (h : linesOf bs = line :: ls) :
    linesOf ls.flatten = ls := by
  induction bs generalizing line with
  | nil => cases h
  | cons b bs ih =>
    by_cases hb : b = newline
    · subst hb
      rw [linesOf_cons_newline] at h
      cases h
      rw [flatten_linesOf]
    · rw [linesOf_cons_of_ne hb] at h
      cases hrest : linesOf bs with
      | nil =>
        rw [hrest] at h
        cases h
        rfl
      | cons l ls' =>
        rw [hrest] at h
        cases h
        exact ih hrest

/-- The lines that are left of a file are the lines of what is left of it. -/
theorem linesOf_flatten_suffix {bs : Bytes} {before after : List Bytes}
    (h : linesOf bs = before ++ after) : linesOf after.flatten = after := by
  induction before generalizing bs with
  | nil =>
    rw [List.nil_append] at h
    rw [← h, flatten_linesOf]
  | cons line before ih =>
    rw [List.cons_append] at h
    exact ih (linesOf_flatten_tail h)

/-- The lines that are left of a file. -/
theorem Reading.lines_of_content {files : FileTree} {place : Location} {content : Bytes}
    (h : files.content place = .ok content) (position : Nat) :
    Reading.lines ⟨place, position⟩ files = .ok (linesOf (content.drop position)) := by
  unfold Reading.lines
  rw [h]
  rfl

/-- What is left of the lines behind a part of them is read from behind that part. Those are fewer
    lines if the part is not empty. -/
theorem Reading.lines_upTo {content : Bytes} (place : Location) {position : Nat}
    {before rest : List Bytes} (hsplit : linesOf (content.drop position) = before ++ rest) :
    ∃ further, Reading.upTo ⟨place, position⟩ (linesOf (content.drop position)) rest =
        ⟨place, further⟩ ∧ linesOf (content.drop further) = rest ∧
      (before ≠ [] → rest.length < (linesOf (content.drop position)).length) := by
  have hcontent : content.drop position = before.flatten ++ rest.flatten := by
    rw [← flatten_linesOf (content.drop position), hsplit, List.flatten_append]
  refine ⟨position + before.flatten.length, ?_, ?_, ?_⟩
  · unfold Reading.upTo
    rw [flatten_linesOf, hcontent, List.length_append, Nat.add_sub_cancel]
  · rw [← List.drop_drop, hcontent, List.drop_left, linesOf_flatten_suffix hsplit]
  · intro hbefore
    have hpos := List.length_pos_iff.mpr hbefore
    rw [hsplit, List.length_append]
    omega

theorem length_consLine_le (b : UInt8) (ls : List Bytes) :
    (consLine b ls).length ≤ ls.length + 1 := by
  cases ls with
  | nil => exact Nat.le_refl 1
  | cons l ls => exact Nat.le_succ _

/-- A file has no more lines than octets. -/
theorem length_linesOf_le (bs : Bytes) : (linesOf bs).length ≤ bs.length := by
  induction bs with
  | nil => exact Nat.le_refl 0
  | cons b bs ih =>
    rw [List.length_cons]
    by_cases hb : b = newline
    · subst hb
      rw [linesOf_cons_newline, List.length_cons]
      omega
    · rw [linesOf_cons_of_ne hb]
      have hle := length_consLine_le b (linesOf bs)
      omega

/-- The number of draws that are allowed for a file is enough for all of its lines. -/
theorem length_lines_lt_lineBound {files : FileTree} {place : Location} {content : Bytes}
    (h : files.content place = .ok content) :
    (linesOf (content.drop 0)).length < files.lineBound place := by
  have hlength := length_linesOf_le content
  unfold FileTree.lineBound
  rw [h, List.drop_zero]
  dsimp only
  omega

/-! ## Streams that give a list -/

/-- The items that a job can pass on: those in front of the first error, and of the first item
    that lacks what a job has to know. -/
def goods : List (Except BackendError Item) → List Item
  | .ok i :: rs =>
    match i.marks with
    | .ok _ => i :: goods rs
    | .error _ => []
  | _ => []

/-- What comes behind the items that a job can pass on: the end, or an error. -/
def ending : List (Except BackendError Item) → Except JobError Unit
  | [] => .ok ()
  | .ok i :: rs =>
    match i.marks with
    | .ok _ => ending rs
    | .error e => .error e
  | .error e :: _ => .error (.backend e)

theorem goods_of_marks {i : Item} {m : Marks} (h : i.marks = .ok m)
    (rs : List (Except BackendError Item)) : goods (.ok i :: rs) = i :: goods rs := by
  rw [goods, h]

theorem ending_of_marks {i : Item} {m : Marks} (h : i.marks = .ok m)
    (rs : List (Except BackendError Item)) : ending (.ok i :: rs) = ending rs := by
  rw [ending, h]

theorem goods_of_unmarked {i : Item} {e : JobError} (h : i.marks = .error e)
    (rs : List (Except BackendError Item)) : goods (.ok i :: rs) = [] := by
  rw [goods, h]

theorem ending_of_unmarked {i : Item} {e : JobError} (h : i.marks = .error e)
    (rs : List (Except BackendError Item)) : ending (.ok i :: rs) = .error e := by
  rw [ending, h]

/-- The items that a job can pass on have their marks. -/
theorem marks_of_mem_goods {rs : List (Except BackendError Item)} :
    ∀ i ∈ goods rs, ∃ m, i.marks = .ok m := by
  induction rs with
  | nil =>
    intro i hi
    cases hi
  | cons r rs ih =>
    intro i hi
    cases r with
    | error e => cases hi
    | ok k =>
      cases hk : k.marks with
      | error e =>
        rw [goods_of_unmarked hk] at hi
        cases hi
      | ok m =>
        rw [goods_of_marks hk] at hi
        rcases List.mem_cons.mp hi with rfl | hi
        · exact ⟨m, hk⟩
        · exact ih i hi

/-- Behind some of the items that a job can pass on come the others. -/
theorem split_of_goods {rs : List (Except BackendError Item)} {before after : List Item} {i : Item}
    (h : goods rs = before ++ i :: after) :
    ∃ rest, rs = before.map .ok ++ .ok i :: rest ∧ goods rest = after ∧
      ending rest = ending rs := by
  induction before generalizing rs with
  | nil =>
    match rs with
    | [] => cases h
    | .error e :: rs => cases h
    | .ok k :: rs =>
      cases hk : k.marks with
      | error e =>
        rw [goods_of_unmarked hk] at h
        cases h
      | ok m =>
        rw [goods_of_marks hk] at h
        cases h
        exact ⟨rs, rfl, rfl, (ending_of_marks hk rs).symm⟩
  | cons b before ih =>
    match rs with
    | [] => cases h
    | .error e :: rs => cases h
    | .ok k :: rs =>
      cases hk : k.marks with
      | error e =>
        rw [goods_of_unmarked hk] at h
        cases h
      | ok m =>
        rw [goods_of_marks hk, List.cons_append] at h
        obtain ⟨rfl, htail⟩ := List.cons.inj h
        obtain ⟨rest, hrs, hgoods, hending⟩ := ih htail
        refine ⟨rest, ?_, hgoods, hending.trans (ending_of_marks hk rs).symm⟩
        rw [hrs, List.map_cons, List.cons_append]

/-- Tagging results tags the items that a job can pass on. -/
theorem goods_tagged (job : String) (rs : List (Except BackendError Item)) :
    goods (rs.map (Except.map fun i => i.tagged job)) =
      (goods rs).map fun i => i.tagged job := by
  induction rs with
  | nil => rfl
  | cons r rs ih =>
    cases r with
    | error e => rfl
    | ok i =>
      have hmarks : (i.tagged job).marks = i.marks := Item.marks_tagged i job
      cases hi : i.marks with
      | error e =>
        rw [goods_of_unmarked hi]
        exact goods_of_unmarked (hmarks.trans hi) _
      | ok m =>
        rw [goods_of_marks hi]
        exact (goods_of_marks (hmarks.trans hi) _).trans (congrArg (i.tagged job :: ·) ih)

theorem ending_tagged (job : String) (rs : List (Except BackendError Item)) :
    ending (rs.map (Except.map fun i => i.tagged job)) = ending rs := by
  induction rs with
  | nil => rfl
  | cons r rs ih =>
    cases r with
    | error e => rfl
    | ok i =>
      have hmarks : (i.tagged job).marks = i.marks := Item.marks_tagged i job
      cases hi : i.marks with
      | error e =>
        rw [ending_of_unmarked hi]
        exact ending_of_unmarked (hmarks.trans hi) _
      | ok m =>
        rw [ending_of_marks hi]
        exact (ending_of_marks (hmarks.trans hi) _).trans ih

/-- A stream gives a list of results, as long as the files and what a queue keeps satisfy `I`
    whenever it is drawn from, and they do so after each draw. If responses are archived, an
    error of the archive may come in the place of any item. -/
inductive Draw.Yields {β κ : Type} (I : Store κ → Prop) (archives : Bool) :
    Draw (Env β) (Except BackendError Item) → κ → List (Except BackendError Item) → Prop where
  | stop {env : Env β} {own : κ} (h : I ⟨env.files, own⟩) : Yields I archives (.stop env) own []
  | error {env : Env β} {own : κ} {rest : Env β → Draw (Env β) (Except BackendError Item)}
      (h : I ⟨env.files, own⟩) (e : BackendError) :
      Yields I archives (.item (.error e) env rest) own [.error e]
  | cut {env : Env β} {own : κ} {rest : Env β → Draw (Env β) (Except BackendError Item)}
      {i : Item} {rs : List (Except BackendError Item)} (h : I ⟨env.files, own⟩)
      (harchives : archives = true) (e : ArchiveError) :
      Yields I archives (.item (.error (.archive e)) env rest) own (.ok i :: rs)
  | item {env : Env β} {own : κ} {rest : Env β → Draw (Env β) (Except BackendError Item)}
      {i : Item} {rs : List (Except BackendError Item)} (h : I ⟨env.files, own⟩)
      (hrest : ∀ env own, I ⟨env.files, own⟩ → Yields I archives (rest env) own rs) :
      Yields I archives (.item (.ok i) env rest) own (.ok i :: rs)

/-- Changing each item of a stream changes the items of the list. -/
theorem Draw.Yields.map {β κ : Type} {I : Store κ → Prop} {archives : Bool}
    {d : Draw (Env β) (Except BackendError Item)} {own : κ}
    {rs : List (Except BackendError Item)} (h : d.Yields I archives own rs) (f : Item → Item) :
    (d.map (Except.map f)).Yields I archives own (rs.map (Except.map f)) := by
  induction h with
  | stop h => exact .stop h
  | error h e => exact .error h e
  | cut h harchives e => exact .cut h harchives e
  | item h hrest ih => exact .item h ih

namespace Lines

/-! ## The results of a file -/

/-- What several lines give, up to the first error; the lines are numbered from `number` on. -/
def results (task : Task) : Int → List Bytes → List (Except BackendError Item)
  | _, [] => []
  | number, l :: ls =>
    match readLine task number l with
    | .nothing => results task (number + 1) ls
    | .refused e => [.error e]
    | .record item _ => .ok item :: results task (number + 1) ls

section

variable {task : Task} {number : Int} {line : Bytes}

theorem results_of_nothing (h : readLine task number line = .nothing) (ls : List Bytes) :
    results task number (line :: ls) = results task (number + 1) ls := by
  rw [results, h]

theorem results_of_refused {e : BackendError} (h : readLine task number line = .refused e)
    (ls : List Bytes) : results task number (line :: ls) = [.error e] := by
  rw [results, h]

theorem results_of_record {item : Item} {record : Json}
    (h : readLine task number line = .record item record) (ls : List Bytes) :
    results task number (line :: ls) = .ok item :: results task (number + 1) ls := by
  rw [results, h]

end

/-- Looking for the next record finds the first result, and the rest of the lines give the
    others. -/
theorem results_of_next? (task : Task) (number : Int) (lines : List Bytes) :
    match next? task number lines with
    | none => results task number lines = []
    | some (.error e) => results task number lines = [.error e]
    | some (.ok hit) =>
      (∃ before, before ≠ [] ∧ lines = before ++ hit.rest) ∧
        results task number lines = .ok hit.item :: results task (hit.number + 1) hit.rest := by
  induction lines generalizing number with
  | nil => rfl
  | cons l ls ih =>
    unfold next?
    cases hline : readLine task number l with
    | refused e => exact results_of_refused hline ls
    | record item record =>
      exact ⟨⟨[l], List.cons_ne_nil l [], rfl⟩, results_of_record hline ls⟩
    | nothing =>
      have hrest := ih (number + 1)
      have hskip := results_of_nothing hline ls
      dsimp only
      generalize next? task (number + 1) ls = found at hrest
      match found with
      | none => exact hskip.trans hrest
      | some (.error e) => exact hskip.trans hrest
      | some (.ok hit) =>
        obtain ⟨⟨before, -, hlines⟩, hresults⟩ := hrest
        refine ⟨⟨l :: before, List.cons_ne_nil l before, ?_⟩, hskip.trans hresults⟩
        rw [hlines, List.cons_append]

/-! ## A fetch -/

/-- Whatever is stored for a category in an archive, if there is one, an invariant is kept. -/
def StoringKeeps {κ : Type} (I : Store κ → Prop) (category : String) (archive : Option Archive) :
    Prop :=
  ∀ a, archive = some a → ∀ line s, I s → I ⟨(a.append category line s.files).2, s.own⟩

/-- The file at a place stays what it is, and storing responses in an archive keeps it so. -/
structure Stays {κ : Type} (I : Store κ → Prop) (place : Location) (content : Bytes)
    (category : String) (archive : Option Archive) : Prop where
  content : ∀ s, I s → s.files.content place = .ok content
  store : ∀ a, archive = some a → ∀ line s, I s → I ⟨(a.append category line s.files).2, s.own⟩

/-- Archiving a record changes the files as appending to the archive does. -/
theorem keep_kept {β κ : Type} {I : Store κ → Prop} {task : Task}
    (h : StoringKeeps I task.category task.archive) (disk : Disk β) (hit : Hit) {env : Env β}
    {own : κ} (henv : I ⟨env.files, own⟩) :
    I ⟨(keep disk task hit env).2.files, own⟩ := by
  unfold keep
  cases harchive : task.archive with
  | none => exact henv
  | some a =>
    dsimp only
    obtain ⟨line, hfiles⟩ := a.store_files task.category task.origin
      (Record.payload hit.number hit.record) env disk
    have hkept := h a harchive line ⟨env.files, own⟩ henv
    rw [← hfiles] at hkept
    split
    · next hstore =>
      rw [hstore] at hkept
      exact hkept
    · next hstore =>
      rw [hstore] at hkept
      exact hkept

theorem keep_error {β : Type} {disk : Disk β} {task : Task} {hit : Hit} {env : Env β}
    {e : BackendError} (h : (keep disk task hit env).1 = .error e) :
    task.archive.isSome = true ∧ ∃ fault, e = .archive fault := by
  unfold keep at h
  cases harchive : task.archive with
  | none =>
    rw [harchive] at h
    cases h
  | some a =>
    rw [harchive] at h
    dsimp only at h
    refine ⟨rfl, ?_⟩
    split at h
    · cases h
    · cases h
      exact ⟨_, rfl⟩

/-- Reading on from a cursor gives the results of the lines that are left. -/
theorem unfold_yields {β κ : Type} {I : Store κ → Prop} (disk : Disk β) (task : Task)
    {place : Location} {content : Bytes}
    (h : Stays I place content task.category task.archive)
    (fuel position : Nat) (number : Int)
    (hfuel : (linesOf (content.drop position)).length ≤ fuel) (env : Env β) (own : κ)
    (henv : I ⟨env.files, own⟩) :
    (Feed.unfold (advance disk task) fuel ⟨⟨place, position⟩, number⟩ env).Yields I
      task.archive.isSome own (results task number (linesOf (content.drop position))) := by
  -- A step uses up at least one line, so that the fuel lasts for all of them.
  induction fuel generalizing position number env own with
  | zero =>
    rw [List.eq_nil_of_length_eq_zero (Nat.le_zero.mp hfuel)]
    exact .stop henv
  | succ fuel ih =>
    have hnext := results_of_next? task number (linesOf (content.drop position))
    unfold Feed.unfold advance
    rw [Reading.lines_of_content (h.content _ henv)]
    dsimp only
    generalize next? task number (linesOf (content.drop position)) = found at hnext
    match found with
    | none =>
      rw [hnext]
      exact .stop henv
    | some (.error e) =>
      rw [hnext]
      exact .error henv e
    | some (.ok hit) =>
      obtain ⟨⟨before, hbefore, hsplit⟩, hresults⟩ := hnext
      rw [hresults]
      have hkeep := keep_kept h.store disk hit henv
      dsimp only
      generalize hkept : keep disk task hit env = kept at hkeep
      obtain ⟨result, env'⟩ := kept
      cases result with
      | error e =>
        have hfailed : (keep disk task hit env).1 = .error e := by rw [hkept]
        obtain ⟨harchives, fault, rfl⟩ := keep_error hfailed
        exact .cut hkeep harchives fault
      | ok u =>
        refine .item hkeep ?_
        intro env'' own'' henv''
        -- What is left of the file are the lines behind the record.
        obtain ⟨further, hmoved, hleft, hfewer⟩ := Reading.lines_upTo place hsplit
        have hshorter : (linesOf (content.drop further)).length ≤ fuel := by
          have hless := hfewer hbefore
          rw [hleft]
          omega
        have hrest := ih further (hit.number + 1) hshorter env'' own'' henv''
        rw [hleft] at hrest
        rw [hmoved]
        exact hrest

/-- A fetch whose arguments are accepted reads the file from its first line on. -/
theorem fetch_of_accepted {β : Type} {args : Fields} {origin : String} {filters : Filters}
    {place : Location} {env : Env β} (hpath : requiredPath args = .ok origin)
    (hfilters : Filters.ofArgs args = .ok filters)
    (hplace : env.files.locate ⟨origin⟩ = .ok place) (archive : Option Archive) (disk : Disk β) :
    fetch recordCategory args archive env disk =
      .ok (Feed.unfold (advance disk ⟨origin, recordCategory, filters, archive⟩)
        (env.files.lineBound place) ⟨⟨place, 0⟩, 0⟩) := by
  have hcategory : checkCategory recordsName [recordCategory] recordCategory = .ok () := rfl
  unfold fetch
  refine (bind_of_ok hcategory _).trans ?_
  refine (bind_of_ok hpath _).trans ?_
  refine (bind_of_ok hfilters _).trans ?_
  rw [hplace]
  rfl

/-- A fetch whose arguments are accepted gives the results of the file. -/
theorem fetch_yields {β κ : Type} {I : Store κ → Prop} {args : Fields} {origin : String}
    {filters : Filters} {archive : Option Archive} {place : Location} {content : Bytes}
    (hpath : requiredPath args = .ok origin) (hfilters : Filters.ofArgs args = .ok filters)
    (h : Stays I place content recordCategory archive) {env : Env β} {own : κ}
    (hplace : env.files.locate ⟨origin⟩ = .ok place) (henv : I ⟨env.files, own⟩)
    (disk : Disk β) :
    ∃ items : Items β, fetch recordCategory args archive env disk = .ok items ∧
      (items env).Yields I archive.isSome own
        (results ⟨origin, recordCategory, filters, archive⟩ 0 (linesOf content)) := by
  refine ⟨_, fetch_of_accepted hpath hfilters hplace archive disk, ?_⟩
  have hfuel := length_lines_lt_lineBound (h.content _ henv)
  have hyields := unfold_yields disk ⟨origin, recordCategory, filters, archive⟩ h
    (env.files.lineBound place) 0 0 (Nat.le_of_lt hfuel) env own henv
  rw [List.drop_zero] at hyields
  exact hyields

/-- A fetch with other arguments fails. -/
theorem fetch_of_refused {β : Type} {args : Fields} {origin : String} {e : BackendError}
    (hpath : requiredPath args = .ok origin) (hfilters : Filters.ofArgs args = .error e)
    (archive : Option Archive) (env : Env β) (disk : Disk β) :
    fetch recordCategory args archive env disk = .error e := by
  have hcategory : checkCategory recordsName [recordCategory] recordCategory = .ok () := rfl
  unfold fetch
  refine (bind_of_ok hcategory _).trans ?_
  refine (bind_of_ok hpath _).trans ?_
  exact bind_of_error hfilters _

end Lines

end Harvest
