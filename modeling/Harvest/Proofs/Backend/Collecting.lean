/-
  Harvest.Proofs.Backend.Collecting

  What a fetch from a file of records does to an archive. A draw that finds a record stores it
  first, as a response with the line of the record, and then gives its item; if the record cannot
  be stored the stream ends with the error of the archive (`drawn_advance`). So every item that a
  stream gives has its response in the archive (`fetch_stores`), whatever becomes of the file in
  the meantime.
-/
import Harvest.Proofs.Archive.Store
import Harvest.Proofs.Backend.Source

namespace Harvest

/-! ## Streams that store what they give -/

/-- A stream, drawn from a world, stores a record for a task on a disk before it gives the item of
    the record, as long as the world satisfies `C` whenever it is drawn from. The lines of the
    records grow from `number` on, and `P` holds of each of them. -/
inductive Draw.Stores {β : Type} (disk : Disk β) (task : Lines.Task) (a : Archive)
    (P : Int → Json → Item → Prop) (C : Env β → Prop) :
    Int → Env β → Draw (Env β) (Except BackendError Item) → Prop where
  | stop {number : Int} {env : Env β} : Stores disk task a P C number env (.stop env)
  | error {number : Int} {env : Env β} (e : BackendError) :
      Stores disk task a P C number env (.item (.error e) env .stop)
  | unstored {number line : Int} {record : Json} {item : Item} {env env' : Env β}
      {e : ArchiveError} (hnumber : number ≤ line) (hrecord : P line record item)
      (h : a.store task.category task.origin (Record.payload line record) env disk =
        (.error e, env')) :
      Stores disk task a P C number env (.item (.error (.archive e)) env' .stop)
  | stored {number line : Int} {record : Json} {item : Item} {r : Response} {env env' : Env β}
      {rest : Env β → Draw (Env β) (Except BackendError Item)}
      (hnumber : number ≤ line) (hrecord : P line record item)
      (h : a.store task.category task.origin (Record.payload line record) env disk =
        (.ok r, env'))
      (hrest : ∀ env, C env → Stores disk task a P C (line + 1) env (rest env)) :
      Stores disk task a P C number env (.item (.ok item) env' rest)

/-- Changing each item of a stream leaves what it stores. -/
theorem Draw.Stores.map {β : Type} {disk : Disk β} {task : Lines.Task} {a : Archive}
    {P : Int → Json → Item → Prop} {C : Env β → Prop} {number : Int} {env : Env β}
    {d : Draw (Env β) (Except BackendError Item)} (h : d.Stores disk task a P C number env)
    (f : Item → Item) :
    (d.map (Except.map f)).Stores disk task a
      (fun line record item => ∃ made, P line record made ∧ item = f made) C number env := by
  induction h with
  | stop => exact .stop
  | error e => exact .error e
  | unstored hnumber hrecord h => exact .unstored hnumber ⟨_, hrecord, rfl⟩ h
  | stored hnumber hrecord h hrest ih => exact .stored hnumber ⟨_, hrecord, rfl⟩ h ih

/-! ## What is collected -/

/-- A record that was collected: the line it is on, its item, and the response that was stored. -/
structure Entry where
  line : Int
  record : Json
  item : Item
  response : Response

/-- An entry tells of a record that was stored for a task, in a world that satisfies `C`. -/
structure Entry.For {β : Type} (e : Entry) (task : Lines.Task) (P : Int → Json → Item → Prop)
    (C : Env β → Prop) : Prop where
  record : P e.line e.record e.item
  response : ∃ env, C env ∧ e.response =
    Archive.offered task.category task.origin (Record.payload e.line e.record) env

/-- The lines of the responses of several entries. -/
def linesOfEntries (entries : List Entry) : Bytes :=
  (entries.map Entry.response).flatMap Response.line

theorem linesOfEntries_cons (e : Entry) (es : List Entry) :
    linesOfEntries (e :: es) = e.response.line ++ linesOfEntries es := rfl

@[simp] theorem linesOfEntries_singleton (e : Entry) : linesOfEntries [e] = e.response.line :=
  List.flatMap_singleton ..

theorem linesOfEntries_append (es fs : List Entry) :
    linesOfEntries (es ++ fs) = linesOfEntries es ++ linesOfEntries fs := by
  unfold linesOfEntries
  rw [List.map_append, List.flatMap_append]

/-- From some files to others an archive gains some octets, behind what it held of a category. -/
def Archive.Gains (a : Archive) (category : String) (before after : FileTree) (more : Bytes) :
    Prop :=
  ∀ bytes, a.Holds category before bytes → a.Holds category after (bytes ++ more)

namespace Archive.Gains

variable {a : Archive} {category : String} {files files' files'' : FileTree} {more most : Bytes}

/-- What leaves all that an archive holds makes it gain nothing. -/
theorem nothing
    (h : ∀ bytes, a.Holds category files bytes → a.Holds category files' bytes) :
    a.Gains category files files' [] := by
  intro bytes hbytes
  rw [List.append_nil]
  exact h bytes hbytes

theorem refl (a : Archive) (category : String) (files : FileTree) :
    a.Gains category files files [] := nothing fun _ hbytes => hbytes

theorem trans (h : a.Gains category files files' more)
    (h' : a.Gains category files' files'' most) :
    a.Gains category files files'' (more ++ most) := by
  intro bytes hbytes
  rw [← List.append_assoc]
  exact h' _ (h bytes hbytes)

end Archive.Gains

section

variable {β : Type} {disk : Disk β} {task : Lines.Task} {a : Archive}
  {P : Int → Json → Item → Prop} {C : Env β → Prop} {number line : Int} {record : Json}
  {item : Item} {r : Response} {env env' : Env β}

/-- Storing a record makes an entry, the line of which the archive gains. -/
theorem Entry.of_store (hrecord : P line record item) (henv : C env)
    (h : a.store task.category task.origin (Record.payload line record) env disk =
      (.ok r, env')) :
    (⟨line, record, item, r⟩ : Entry).For task P C ∧
      a.Gains task.category env.files env'.files r.line := by
  obtain ⟨hr, happend, -⟩ := Archive.store_ok h
  refine ⟨⟨hrecord, env, henv, hr⟩, ?_⟩
  intro bytes hbytes
  exact .file (Archive.append_ok happend hbytes)

variable {d : Draw (Env β) (Except BackendError Item)}

/-- The items of a stream that is drawn to its end are those of entries. On a disk that never
    fails, the archive then holds their responses behind what it held. -/
theorem Draw.Stores.drain (h : d.Stores .sound task a P C number env)
    (hstore : ∀ env env' line record r, C env →
      a.store task.category task.origin (Record.payload line record) env = (.ok r, env') →
      C env')
    (henv : C env) :
    ∃ entries : List Entry, (∀ e ∈ entries, e.For task P C) ∧
      d.drain.1.filterMap Except.toOption = entries.map Entry.item ∧
      a.Gains task.category env.files d.drain.2.files (linesOfEntries entries) := by
  induction h with
  | @stop number env => exact ⟨[], List.forall_mem_nil _, rfl, .refl a task.category env.files⟩
  | @error number env e =>
    exact ⟨[], List.forall_mem_nil _, rfl, .refl a task.category env.files⟩
  | unstored hnumber hrecord h =>
    obtain ⟨part, -, hnone, hleaves⟩ := Archive.store_leaves h
    rw [hnone rfl] at hleaves
    exact ⟨[], List.forall_mem_nil _, rfl, hleaves⟩
  | @stored number line record item r env env' rest hnumber hrecord h hrest ih =>
    have hkept := hstore _ _ _ _ _ henv h
    obtain ⟨hentry, hgains⟩ := Entry.of_store hrecord henv h
    obtain ⟨entries, hentries, hitems, hend⟩ := ih _ hkept hkept
    refine ⟨⟨line, record, item, r⟩ :: entries, ?_, ?_, hgains.trans hend⟩
    · exact List.forall_mem_cons.mpr ⟨hentry, hentries⟩
    · rw [drain_item, List.map_cons, ← hitems]
      rfl

end

namespace Lines

/-! ## One draw -/

/-- The record that is found next is on a line behind others that give nothing. -/
theorem next?_eq_ok {task : Task} {number : Int} {lines : List Bytes} {hit : Hit}
    (h : next? task number lines = some (.ok hit)) :
    ∃ before line, lines = before ++ line :: hit.rest ∧ hit.number = number + before.length ∧
      readLine task hit.number line = .record hit.item hit.record := by
  induction lines generalizing number with
  | nil => cases h
  | cons l ls ih =>
    unfold next? at h
    cases hline : readLine task number l with
    | refused e =>
      rw [hline] at h
      cases h
    | record item record =>
      rw [hline] at h
      cases h
      exact ⟨[], l, rfl, (Int.add_zero number).symm, hline⟩
    | nothing =>
      rw [hline] at h
      obtain ⟨before, line, hlines, hnumber, hrecord⟩ := ih h
      refine ⟨l :: before, line, by simp [hlines], ?_, hrecord⟩
      rw [number_cons, hnumber]

theorem number_le_of_next? {task : Task} {number : Int} {lines : List Bytes} {hit : Hit}
    (h : next? task number lines = some (.ok hit)) : number ≤ hit.number := by
  obtain ⟨before, line, -, hnumber, -⟩ := next?_eq_ok h
  omega

/-- What a draw from a file of records may come to, if records are archived: nothing, an error
    of the file, an error of the archive, or an item whose record is stored. -/
inductive Drawn {β : Type} (disk : Disk β) (task : Task) (a : Archive) (cursor : Cursor)
    (env : Env β) : Option (Except BackendError Item × Option Cursor) × Env β → Prop where
  | ended : Drawn disk task a cursor env (none, env)
  | unread (e : BackendError) : Drawn disk task a cursor env (some (.error e, none), env)
  | unstored {lines : List Bytes} {hit : Hit} {e : ArchiveError} {env' : Env β}
      (hlines : cursor.reading.lines env.files = .ok lines)
      (hnext : next? task cursor.number lines = some (.ok hit))
      (h : a.store task.category task.origin (Record.payload hit.number hit.record) env disk =
        (.error e, env')) :
      Drawn disk task a cursor env (some (.error (.archive e), none), env')
  | stored {lines : List Bytes} {hit : Hit} {r : Response} {env' : Env β}
      (hlines : cursor.reading.lines env.files = .ok lines)
      (hnext : next? task cursor.number lines = some (.ok hit))
      (h : a.store task.category task.origin (Record.payload hit.number hit.record) env disk =
        (.ok r, env')) :
      Drawn disk task a cursor env
        (some (.ok hit.item, some ⟨cursor.reading.upTo lines hit.rest, hit.number + 1⟩), env')

theorem drawn_advance {β : Type} (disk : Disk β) {task : Task} {a : Archive}
    (ha : task.archive = some a) (cursor : Cursor) (env : Env β) :
    Drawn disk task a cursor env (advance disk task cursor env) := by
  unfold advance
  cases hlines : cursor.reading.lines env.files with
  | error f => exact .unread _
  | ok lines =>
    cases hnext : next? task cursor.number lines with
    | none =>
      simp only [hnext]
      exact .ended
    | some found =>
      cases found with
      | error e =>
        simp only [hnext]
        exact .unread e
      | ok hit =>
        simp only [hnext]
        unfold keep
        rw [ha]
        dsimp only
        cases hstore : a.store task.category task.origin (Record.payload hit.number hit.record)
          env disk with
        | mk result env' =>
          cases result with
          | error e => exact .unstored hlines hnext hstore
          | ok r => exact .stored hlines hnext hstore

/-! ## A fetch -/

/-- Reading on from a cursor stores each record before its item is given. Of the records `P` is
    known, and of the cursors `G`, from what is known of the lines that are left. -/
theorem unfold_stores {β : Type} {disk : Disk β} {task : Task} {a : Archive}
    (ha : task.archive = some a)
    {P : Int → Json → Item → Prop} {G : Cursor → Prop} {C : Env β → Prop}
    (hstep : ∀ cursor env lines hit, G cursor → C env →
      cursor.reading.lines env.files = .ok lines →
      next? task cursor.number lines = some (.ok hit) →
      P hit.number hit.record hit.item ∧
        G ⟨cursor.reading.upTo lines hit.rest, hit.number + 1⟩)
    (fuel : Nat) (cursor : Cursor) (hcursor : G cursor) (env : Env β) (henv : C env) :
    (Feed.unfold (advance disk task) fuel cursor env).Stores disk task a P C cursor.number
      env := by
  induction fuel generalizing cursor env with
  | zero => exact .stop
  | succ fuel ih =>
    have hdrawn := drawn_advance disk ha cursor env
    unfold Feed.unfold
    generalize advance disk task cursor env = drawn at hdrawn
    cases hdrawn with
    | ended => exact .stop
    | unread e => exact .error e
    | unstored hlines hnext h =>
      obtain ⟨hrecord, -⟩ := hstep cursor env _ _ hcursor henv hlines hnext
      exact .unstored (number_le_of_next? hnext) hrecord h
    | @stored lines hit r env' hlines hnext h =>
      obtain ⟨hrecord, hmoved⟩ := hstep cursor env lines hit hcursor henv hlines hnext
      have hbehind := number_le_of_next? hnext
      -- The rest is read from behind the record, whatever the world is like by then.
      exact .stored hbehind hrecord h fun env henv => ih _ hmoved env henv

/-- A record that a task wants on a line of its own. -/
def Task.Finds (task : Task) (line : Int) (record : Json) (item : Item) : Prop :=
  ∃ bytes, readLine task line bytes = .record item record

/-- A fetch that is opened reads the file to which the path leads from its first line on. -/
theorem fetch_eq_ok {β : Type} {disk : Disk β} {category : String} {args : Fields}
    {archive : Option Archive} {env : Env β} {items : Items β}
    (h : fetch category args archive env disk = .ok items) :
    ∃ origin filters place, requiredPath args = .ok origin ∧
      Filters.ofArgs args = .ok filters ∧ env.files.locate ⟨origin⟩ = .ok place ∧
      items = Feed.unfold (advance disk ⟨origin, category, filters, archive⟩)
        (env.files.lineBound place) ⟨⟨place, 0⟩, 0⟩ := by
  unfold fetch at h
  obtain ⟨-, -, h⟩ := of_bind_eq_ok h
  obtain ⟨origin, horigin, h⟩ := of_bind_eq_ok h
  obtain ⟨filters, hfilters, h⟩ := of_bind_eq_ok h
  cases hplace : env.files.locate ⟨origin⟩ with
  | error f =>
    rw [hplace] at h
    cases h
  | ok place =>
    rw [hplace] at h
    cases h
    exact ⟨origin, filters, place, horigin, hfilters, hplace, rfl⟩

/-- What a fetch finds is stored before it is given, whatever becomes of the file. -/
theorem fetch_stores {β : Type} {disk : Disk β} {category : String} {args : Fields} {a : Archive}
    {env : Env β} {items : Items β} (h : fetch category args (some a) env disk = .ok items) :
    ∃ origin filters, requiredPath args = .ok origin ∧ Filters.ofArgs args = .ok filters ∧
      ∀ env, (items env).Stores disk ⟨origin, category, filters, some a⟩ a
        (Task.Finds ⟨origin, category, filters, some a⟩) (fun _ => True) 0 env := by
  obtain ⟨origin, filters, place, horigin, hfilters, -, rfl⟩ := fetch_eq_ok h
  refine ⟨origin, filters, horigin, hfilters, ?_⟩
  intro env
  refine unfold_stores (G := fun _ => True) rfl ?_ _ ⟨⟨place, 0⟩, 0⟩ trivial env trivial
  intro cursor env lines hit _ _ _ hnext
  obtain ⟨before, line, -, -, hrecord⟩ := next?_eq_ok hnext
  exact ⟨⟨line, hrecord⟩, trivial⟩

/-- A record that a task wants on a line of a source. -/
def Task.FindsIn (task : Task) (source : Source) (line : Int) (record : Json) (item : Item) :
    Prop :=
  ∃ bytes, (linesOf source.content)[line.toNat]? = some bytes ∧ 0 ≤ line ∧
    line < Number.greatestSigned64 ∧ readLine task line bytes = .record item record

/-- A cursor among the lines of a source: in front of it are as many as its number tells. -/
structure Cursor.On (cursor : Cursor) (source : Source) : Prop where
  place : cursor.reading.place = source.place
  number : ∃ before, linesOf source.content =
    before ++ linesOf (source.content.drop cursor.reading.position) ∧
    cursor.number = before.length

theorem Cursor.on_start (source : Source) : Cursor.On ⟨⟨source.place, 0⟩, 0⟩ source :=
  ⟨rfl, [], by simp, rfl⟩

/-- What is found behind a cursor is on a line of the source, and the cursor moves behind it. -/
theorem Cursor.On.hit {task : Task} {source : Source} {cursor : Cursor} {files : FileTree}
    {lines : List Bytes} {hit : Hit} (h : cursor.On source)
    (hcontent : files.content source.place = .ok source.content)
    (hlines : cursor.reading.lines files = .ok lines)
    (hnext : next? task cursor.number lines = some (.ok hit)) :
    task.FindsIn source hit.number hit.record hit.item ∧
      Cursor.On ⟨cursor.reading.upTo lines hit.rest, hit.number + 1⟩ source := by
  obtain ⟨⟨place, position⟩, number⟩ := cursor
  obtain ⟨rfl, before, hbefore, hnumber⟩ := h
  -- What is left to read are the last lines of the source.
  rw [Reading.lines_of_content hcontent] at hlines
  obtain rfl := Except.ok.inj hlines
  obtain ⟨front, line, hsplit, hline, hrecord⟩ := next?_eq_ok hnext
  dsimp only at hbefore hnumber hline
  rw [hsplit] at hbefore
  have hfits := source.lines_fit
  have hlength := congrArg List.length hbefore
  simp only [List.length_append, List.length_cons] at hlength
  -- In front of the line are those before the cursor, and those that were passed over.
  have hindex : hit.number.toNat = before.length + front.length := by omega
  have hfound : (linesOf source.content)[hit.number.toNat]? = some line := by
    rw [hindex, hbefore, List.getElem?_append_right (Nat.le_add_right _ _),
      Nat.add_sub_cancel_left, List.getElem?_append_right (Nat.le_refl _), Nat.sub_self]
    rfl
  have hsplit' : linesOf (source.content.drop position) = (front ++ [line]) ++ hit.rest := by
    simp [hsplit]
  obtain ⟨further, hmoved, hrest, -⟩ := Reading.lines_upTo source.place hsplit'
  refine ⟨⟨line, hfound, by omega, by omega, hrecord⟩, ?_⟩
  rw [hmoved]
  refine ⟨rfl, before ++ (front ++ [line]), ?_, ?_⟩
  · dsimp only
    rw [hrest, hbefore]
    simp
  · simp only [List.length_append, List.length_singleton]
    omega

/-- What a fetch finds in a source that stays is on one of its lines. -/
theorem fetch_stores_source {β : Type} {source : Source} {category : String} {args : Fields}
    {a : Archive} {env : Env β} {items : Items β} {filters : Filters}
    (hpath : requiredPath args = .ok source.path) (hfilters : Filters.ofArgs args = .ok filters)
    (hsource : source.In env.files) {C : Env β → Prop}
    (hstays : ∀ env, C env → env.files.content source.place = .ok source.content)
    (h : fetch category args (some a) env = .ok items) (henv : C env) :
    (items env).Stores .sound ⟨source.path, category, filters, some a⟩ a
      (Task.FindsIn ⟨source.path, category, filters, some a⟩ source) C 0 env := by
  obtain ⟨origin, f, place, horigin, hf, hplace, rfl⟩ := fetch_eq_ok h
  rw [hpath] at horigin
  rw [hfilters] at hf
  cases horigin
  cases hf
  rw [hsource.located] at hplace
  cases hplace
  refine unfold_stores (G := fun cursor => cursor.On source) rfl ?_ _ ⟨⟨source.place, 0⟩, 0⟩
    (Cursor.on_start source) env henv
  intro cursor env lines hit hcursor henv hlines hnext
  exact hcursor.hit (hstays env henv) hlines hnext

end Lines

end Harvest
