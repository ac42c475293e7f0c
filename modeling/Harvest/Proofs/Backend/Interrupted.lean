/-
  Harvest.Proofs.Backend.Interrupted

  Fetches that fail on the way. `Lines.interrupted` is the backend for files of records, any step
  of which a fault may strike: a fetch or a replay may fail as it starts, and the stream may break
  off in front of an item, behind it, or at its end. What may be wrong with the arguments is told
  before that. Whatever strikes, a fetch or a replay with arguments that are accepted has errors
  that are worth another run only, and no item of it goes on from in front of the first line
  (`fetch_opens`, `replay_opens`, `Opens.interrupted`).
-/
import Harvest.Proofs.Backend.Collecting
import Harvest.Proofs.Backend.Replaying
import Harvest.Proofs.Backend.Selection

namespace Harvest

/-! ## Faults -/

/-- An error that is none of the arguments, so that another run may end otherwise. -/
abbrev TransientError := { e : BackendError // e.isConfiguration = false }

/-- Whether a fault strikes the next step, which what a backend keeps tells, and what it keeps
    from then on. -/
abbrev Faults (β : Type) := β → Option TransientError × β

section

variable {β : Type}

/-- Draws from a stream, unless a fault strikes, which ends it. -/
def Faults.strike (faults : Faults β) (env : Env β)
    (draw : Env β → Draw (Env β) (Except BackendError Item)) :
    Draw (Env β) (Except BackendError Item) :=
  match faults env.own with
  | (some e, own) => .item (.error e.val) { env with own } .stop
  | (none, own) => draw { env with own }

/-- A stream that a fault may strike after anything that is drawn from it, and before it is drawn
    from again. -/
def Draw.interrupted (faults : Faults β) :
    Draw (Env β) (Except BackendError Item) → Draw (Env β) (Except BackendError Item)
  | .stop env => faults.strike env .stop
  | .item r env rest =>
    faults.strike env fun env =>
      .item r env fun env => faults.strike env fun env => (rest env).interrupted faults

/-- The start of a fetch that a fault may strike, with the stream that it starts. -/
def Faults.opening (faults : Faults β) : Opening β → Opening β
  | (.error e, env) => (.error e, env)
  | (.ok items, env) =>
    match faults env.own with
    | (some e, own) => (.error e.val, { env with own })
    | (none, own) =>
      (.ok fun env => faults.strike env fun env => (items env).interrupted faults,
        { env with own })

/-- The backend for files of records, which faults may strike, on a disk that may fail as well. -/
def Lines.interrupted (faults : Faults β) (disk : Disk β := .sound) : Backend β :=
  { Lines.backend disk with
    fetch := fun category args archive env =>
      faults.opening ((Lines.backend disk).fetch category args archive env)
    replay := fun category args archive after env =>
      faults.opening ((Lines.backend disk).replay category args archive after env) }

/-- No fault ever strikes. -/
def Faults.never : Faults β := fun own => (none, own)

theorem Draw.interrupted_never (d : Draw (Env β) (Except BackendError Item)) :
    d.interrupted .never = d := by
  induction d with
  | stop env => rfl
  | item r env rest ih =>
    have hrest : (fun env => (rest env).interrupted .never) = rest := funext ih
    show Draw.item r env (fun env => (rest env).interrupted .never) = _
    rw [hrest]

theorem Faults.opening_never (opened : Opening β) : Faults.never.opening opened = opened := by
  obtain ⟨result, env⟩ := opened
  cases result with
  | error e => rfl
  | ok items =>
    have hitems : (fun env => (items env).interrupted .never) = items :=
      funext fun env => (items env).interrupted_never
    show (Except.ok (fun env => (items env).interrupted .never), env) = _
    rw [hitems]

/-- If no fault ever strikes, it is the backend for files of records. -/
theorem Lines.interrupted_never (disk : Disk β) :
    Lines.interrupted .never disk = Lines.backend disk := by
  unfold interrupted
  simp only [Faults.opening_never]

end

/-! ## Streams that a run can go on from -/

/-- All that a stream gives satisfies `P`, as long as the files and what a queue keeps satisfy `I`
    whenever it is drawn from, and they do so after each draw. -/
inductive Draw.Gives {β κ α : Type} (I : Store κ → Prop) (P : α → Prop) :
    Draw (Env β) α → κ → Prop where
  | stop {env : Env β} {own : κ} (h : I ⟨env.files, own⟩) : Gives I P (.stop env) own
  | item {a : α} {env : Env β} {rest : Env β → Draw (Env β) α} {own : κ}
      (h : I ⟨env.files, own⟩) (ha : P a)
      (hrest : ∀ env own, I ⟨env.files, own⟩ → Gives I P (rest env) own) :
      Gives I P (.item a env rest) own

/-- The offset of an item, if it has one, is that of a line. -/
def Item.Numbered (i : Item) : Prop := ∀ n, i.offset? = some n → 0 ≤ n

/-- A result is an error, or an item that is made of a record. -/
def Made (r : Except BackendError Item) : Prop :=
  ∀ i, r = .ok i → ∃ next, Record.Shaped next i

theorem made_error (e : BackendError) : Made (.error e) := by
  intro i hi
  cases hi

/-- A run can go on from a result: an item is numbered, and an error is none of the arguments. -/
def Resumable : Except BackendError Item → Prop
  | .ok i => i.Numbered
  | .error e => e.isConfiguration = false

section

variable {β κ : Type} {I : Store κ → Prop}

theorem Draw.Gives.imp {α : Type} {P Q : α → Prop} {d : Draw (Env β) α} {own : κ}
    (h : d.Gives I P own) (himp : ∀ a, P a → Q a) : d.Gives I Q own := by
  induction h with
  | stop h => exact .stop h
  | item h ha hrest ih => exact .item h (himp _ ha) ih

theorem Draw.Gives.map {α γ : Type} {P : α → Prop} {Q : γ → Prop} {d : Draw (Env β) α} {own : κ}
    (h : d.Gives I P own) {f : α → γ} (hf : ∀ a, P a → Q (f a)) : (d.map f).Gives I Q own := by
  induction h with
  | stop h => exact .stop h
  | item h ha hrest ih => exact .item h (hf _ ha) ih

theorem Draw.Gives.filterMap {α γ : Type} {P : α → Prop} {Q : γ → Prop} {d : Draw (Env β) α}
    {own : κ} (h : d.Gives I P own) {f : α → Option γ} (hf : ∀ a c, P a → f a = some c → Q c) :
    (d.filterMap f).Gives I Q own := by
  induction h with
  | stop h => exact .stop h
  | @item a env rest own h ha hrest ih =>
    unfold Draw.filterMap
    cases hfa : f a with
    | none => exact ih env own h
    | some c => exact .item h (hf a c ha hfa) ih

theorem Faults.strike_gives (faults : Faults β) {env : Env β} {own : κ}
    {draw : Env β → Draw (Env β) (Except BackendError Item)} (h : I ⟨env.files, own⟩)
    (hdraw : ∀ later : Env β, later.files = env.files → (draw later).Gives I Resumable own) :
    (faults.strike env draw).Gives I Resumable own := by
  unfold strike
  generalize faults env.own = reply
  obtain ⟨fault, kept⟩ := reply
  cases fault with
  | none => exact hdraw { env with own := kept } rfl
  | some e => exact .item h e.property fun _ _ h => .stop h

theorem Draw.Gives.interrupted {d : Draw (Env β) (Except BackendError Item)} {own : κ}
    (h : d.Gives I Resumable own) (faults : Faults β) :
    (d.interrupted faults).Gives I Resumable own := by
  induction h with
  | stop h =>
    refine faults.strike_gives h ?_
    intro later hfiles
    exact .stop (by rw [hfiles]; exact h)
  | item h ha hrest ih =>
    refine faults.strike_gives h ?_
    intro later hfiles
    refine .item (by rw [hfiles]; exact h) ha ?_
    intro env own henv
    refine faults.strike_gives henv ?_
    intro next hnext
    exact ih next own (by rw [hnext]; exact henv)

/-- What only looks at the world gives what it reads. -/
theorem Draw.Reads.gives {C : Env β → Prop} (hI : ∀ env own, I ⟨env.files, own⟩ → C env)
    {α : Type} {P : α → Prop} {env : Env β} {d : Draw (Env β) α} {as : List α}
    (h : d.Reads C env as) (has : ∀ a ∈ as, P a) {own : κ} (hstart : I ⟨env.files, own⟩) :
    d.Gives I P own := by
  induction h generalizing own with
  | stop => exact .stop hstart
  | @item env a rest as h ih =>
    refine .item hstart (has a List.mem_cons_self) ?_
    intro env own henv
    exact ih env (hI env own henv) (fun b hb => has b (List.mem_cons_of_mem a hb)) henv

/-- The start of a fetch from which a run can go on: it fails with an error that is none of the
    arguments, or gives a stream from which a run can go on. -/
inductive Opens (I : Store κ → Prop) (own : κ) : Opening β → Prop where
  | failed {e : BackendError} {env : Env β} (h : I ⟨env.files, own⟩)
      (he : e.isConfiguration = false) : Opens I own (.error e, env)
  | given {items : Items β} {env : Env β} (h : I ⟨env.files, own⟩)
      (hitems : ∀ env own, I ⟨env.files, own⟩ → (items env).Gives I Resumable own) :
      Opens I own (.ok items, env)

theorem Opens.interrupted {own : κ} {opened : Opening β} (h : Opens I own opened)
    (faults : Faults β) : Opens I own (faults.opening opened) := by
  cases h with
  | failed h he => exact .failed h he
  | @given items env h hitems =>
    unfold Faults.opening
    dsimp only
    generalize faults env.own = reply
    obtain ⟨fault, kept⟩ := reply
    cases fault with
    | some e => exact .failed h e.property
    | none =>
      refine .given h ?_
      intro env own henv
      refine faults.strike_gives henv ?_
      intro later hfiles
      exact (hitems later own (by rw [hfiles]; exact henv)).interrupted faults

end

/-! ## Errors on the way -/

/-- A response that cannot be stored is no matter of configuration. -/
theorem Archive.append_error_transient {a : Archive} {category : String} {line : Bytes}
    {files : FileTree} {going : Writing} {e : ArchiveError}
    (h : (a.append category line files going).1 = .error e) : e.isConfiguration = false := by
  unfold append at h
  split at h
  · cases h
    rfl
  · next made _ =>
    dsimp only at h
    cases hwritten : (made.write (a.categoryPath category) line going).1 with
    | error f =>
      rw [hwritten] at h
      cases h
      cases f <;> rfl
    | ok u =>
      rw [hwritten] at h
      cases h

/-- A line that cannot be read is no matter of configuration. -/
theorem Archive.readLine_refused_transient {after : Option Calendar.Instant} {line : Bytes}
    {e : ArchiveError} (h : readLine after line = .refused e) : e.isConfiguration = false := by
  unfold readLine at h
  split at h
  · cases h
    rfl
  · split at h
    · cases h
    · split at h
      · cases h
      · split at h
        · cases h
          rfl
        · split at h <;> cases h

theorem Archive.readLines_error_transient {after : Option Calendar.Instant} {lines : List Bytes}
    {e : ArchiveError} (h : .error e ∈ readLines after lines) : e.isConfiguration = false := by
  induction lines with
  | nil => cases h
  | cons line lines ih =>
    cases hline : readLine after line with
    | unfinished =>
      rw [readLines_of_unfinished hline] at h
      cases h
    | nothing =>
      rw [readLines_of_nothing hline] at h
      exact ih h
    | response r =>
      rw [readLines_of_response hline] at h
      rcases List.mem_cons.mp h with heq | h
      · cases heq
      · exact ih h
    | refused e' =>
      rw [readLines_of_refused hline, List.mem_singleton] at h
      cases h
      exact readLine_refused_transient hline

theorem Record.toItem_error {origin category : String} {line next : Int} {record : Json}
    {e : BackendError} (h : toItem origin category line next record = .error e) :
    e.isConfiguration = false := by
  obtain ⟨words, rfl⟩ := parse_of_toItem h
  rfl

/-- The item of a record goes on from the line behind its own. -/
theorem Record.Shaped.numbered {next : Int} {i : Item} (h : Shaped next i) (hnext : 0 ≤ next) :
    i.Numbered := by
  intro n hn
  rw [h.offset] at hn
  have heq := Json.eq_of_asInt64?_ofInt hn
  omega

namespace Lines

theorem readLine_error {task : Task} {number : Int} {line : Bytes} {e : BackendError}
    (h : readLine task number line = .refused e) : e.isConfiguration = false := by
  unfold readLine at h
  split at h
  · cases h
    rfl
  · split at h
    · cases h
    · split at h
      · cases h
        rfl
      · split at h
        · next herror =>
          cases h
          exact Record.toItem_error herror
        · split at h <;> cases h

/-- A line that cannot be read is no matter of the arguments. -/
theorem next?_error {task : Task} {number : Int} {lines : List Bytes} {e : BackendError}
    (h : next? task number lines = some (.error e)) : e.isConfiguration = false := by
  induction lines generalizing number with
  | nil => cases h
  | cons line lines ih =>
    unfold next? at h
    cases hline : readLine task number line with
    | refused e' =>
      rw [hline] at h
      cases h
      exact readLine_error hline
    | record item record =>
      rw [hline] at h
      cases h
    | nothing =>
      rw [hline] at h
      exact ih h

/-- A record that cannot be archived is no matter of configuration. -/
theorem keep_error_transient {β : Type} {disk : Disk β} {task : Task} {hit : Hit} {env : Env β}
    {e : BackendError} (h : (keep disk task hit env).1 = .error e) :
    e.isConfiguration = false := by
  unfold keep at h
  split at h
  · cases h
  · split at h
    · cases h
    · next hstore =>
      cases h
      exact Archive.append_error_transient (congrArg Prod.fst (Archive.store_error hstore).1)

section

variable {β κ : Type} {disk : Disk β} {I : Store κ → Prop} {args : Fields} {filters : Filters}

/-! ## From the file -/

/-- Whatever becomes of the file, a run can go on from what is read of it, which is made of its
    records, and an invariant that storing in the archive keeps is kept. -/
theorem unfold_gives (task : Task) (hkeeps : StoringKeeps I task.category task.archive)
    (fuel : Nat) {cursor : Cursor} (hnumber : 0 ≤ cursor.number) {env : Env β} {own : κ}
    (hstart : I ⟨env.files, own⟩) :
    (Feed.unfold (advance disk task) fuel cursor env).Gives I (fun r => Resumable r ∧ Made r)
      own := by
  induction fuel generalizing cursor env own with
  | zero => exact .stop hstart
  | succ fuel ih =>
    unfold Feed.unfold advance
    cases hlines : cursor.reading.lines env.files with
    | error f => exact .item hstart ⟨rfl, made_error _⟩ fun _ _ h => .stop h
    | ok lines =>
      dsimp only
      cases hnext : next? task cursor.number lines with
      | none => exact .stop hstart
      | some found =>
        cases found with
        | error e => exact .item hstart ⟨next?_error hnext, made_error e⟩ fun _ _ h => .stop h
        | ok hit =>
          obtain ⟨before, line, -, hnumbered, hrecord⟩ := next?_eq_ok hnext
          obtain ⟨-, -, hshaped⟩ := wanted_of_readLine hrecord
          have hkeep := keep_kept hkeeps disk hit hstart
          dsimp only
          cases hkept : keep disk task hit env with
          | mk result later =>
            rw [hkept] at hkeep
            cases result with
            | ok u =>
              refine .item hkeep ⟨hshaped.numbered (by omega), ?_⟩ ?_
              · rintro _ ⟨⟩
                exact ⟨_, hshaped⟩
              intro env own henv
              exact ih (by show 0 ≤ hit.number + 1; omega) henv
            | error e =>
              have htransient := keep_error_transient (congrArg Prod.fst hkept)
              exact .item hkeep ⟨htransient, made_error e⟩ fun _ _ h => .stop h

/-- A fetch with arguments that are accepted fails if there is no file, and otherwise reads it. -/
theorem fetch_cases {path : String} (hpath : requiredPath args = .ok path)
    (hfilters : Filters.ofArgs args = .ok filters) (archive : Option Archive) (env : Env β) :
    (∃ words, fetch recordCategory args archive env disk = .error (.io words)) ∨
      ∃ place, fetch recordCategory args archive env disk =
        .ok (Feed.unfold (advance disk ⟨path, recordCategory, filters, archive⟩)
          (env.files.lineBound place) ⟨⟨place, 0⟩, 0⟩) := by
  cases hplace : env.files.locate ⟨path⟩ with
  | ok place => exact .inr ⟨place, fetch_of_accepted hpath hfilters hplace archive disk⟩
  | error f =>
    have hcategory : checkCategory recordsName [recordCategory] recordCategory = .ok () := rfl
    refine .inl ⟨"Failed to open " ++ path ++ ": " ++ f.message, ?_⟩
    unfold fetch
    refine (bind_of_ok hcategory _).trans ?_
    refine (bind_of_ok hpath _).trans ?_
    refine (bind_of_ok hfilters _).trans ?_
    rw [hplace]
    rfl

/-- A fetch with arguments that are accepted is one from which a run can go on. -/
theorem fetch_opens {path : String} (hpath : requiredPath args = .ok path)
    (hfilters : Filters.ofArgs args = .ok filters) {archive : Option Archive}
    (hkeeps : StoringKeeps I recordCategory archive) {env : Env β} {own : κ}
    (hstart : I ⟨env.files, own⟩) :
    Opens I own ((Lines.backend disk).fetch recordCategory args archive env) := by
  show Opens _ own (fetch recordCategory args archive env disk, env)
  rcases fetch_cases hpath hfilters archive env with ⟨words, hfetch⟩ | ⟨place, hfetch⟩
  · rw [hfetch]
    exact .failed hstart rfl
  · rw [hfetch]
    let task : Task := ⟨path, recordCategory, filters, archive⟩
    have hzero : (0 : Int) ≤ 0 := Int.le_refl 0
    have hgives : ∀ (later : Env β) (own : κ), I ⟨later.files, own⟩ →
        (Feed.unfold (advance disk task) (env.files.lineBound place) ⟨⟨place, 0⟩, 0⟩ later).Gives I
          (fun r => Resumable r ∧ Made r) own :=
      fun later own hlater => unfold_gives task hkeeps _ hzero hlater
    exact .given hstart fun later own hlater => (hgives later own hlater).imp fun r hr => hr.1

end

end Lines

/-! ## From an archive -/

namespace Archive

/-- The file of a category is at the same place, if there is one, and has the same content. -/
structure SameFile (a : Archive) (category : String) (files later : FileTree) : Prop where
  located : later.locate (a.categoryPath category) = files.locate (a.categoryPath category)
  content : ∀ place, files.locate (a.categoryPath category) = .ok place →
    later.content place = files.content place

theorem SameFile.refl (a : Archive) (category : String) (files : FileTree) :
    a.SameFile category files files := ⟨rfl, fun _ _ => rfl⟩

/-- The responses of a category that can be read are on lines that can be numbered, and so can the
    lines behind them, as far as they tell on which. -/
def Numbered (a : Archive) (category : String) (files : FileTree) : Prop :=
  ∀ place content, files.locate (a.categoryPath category) = .ok place →
    files.content place = .ok content → ∀ r, .ok r ∈ readLines none (linesOf content) →
      ∀ line, (r.payload.get? "line" >>= Json.asInt64?) = some line →
        0 ≤ line ∧ line < Number.greatestSigned64

/-- What is given of the responses behind an instant is given of all. -/
theorem mem_readLines {after : Option Calendar.Instant} {lines : List Bytes} {r : Response}
    (h : .ok r ∈ readLines after lines) : .ok r ∈ readLines none lines := by
  induction lines with
  | nil => cases h
  | cons line lines ih =>
    have hasked := readLine_after after line
    cases hline : readLine none line with
    | unfinished =>
      rw [hline] at hasked
      rw [readLines_of_unfinished hasked] at h
      cases h
    | nothing =>
      rw [hline] at hasked
      rw [readLines_of_nothing hasked] at h
      rw [readLines_of_nothing hline]
      exact ih h
    | refused e =>
      rw [hline] at hasked
      rw [readLines_of_refused hasked, List.mem_singleton] at h
      cases h
    | response r' =>
      rw [hline] at hasked
      rw [readLines_of_response hline]
      by_cases hlater : isLater after r' = true
      · have hasked : readLine after line = .response r' := by
          rw [hasked]
          exact if_pos hlater
        rw [readLines_of_response hasked] at h
        rcases List.mem_cons.mp h with heq | h
        · exact List.mem_cons.mpr (.inl heq)
        · exact List.mem_cons_of_mem _ (ih h)
      · have hasked : readLine after line = .nothing := by
          rw [hasked]
          exact if_neg hlater
        rw [readLines_of_nothing hasked] at h
        exact List.mem_cons_of_mem _ (ih h)

end Archive

namespace Lines

/-- A response is on a line that can be numbered, and so can the line behind it, if it tells on
    which, and an error of an archive is no matter of configuration. -/
def Replayable : Except ArchiveError Response → Prop
  | .ok r => ∀ line, (r.payload.get? "line" >>= Json.asInt64?) = some line →
    0 ≤ line ∧ line < Number.greatestSigned64
  | .error e => e.isConfiguration = false

/-- A response from which no item can be made is no matter of the arguments. -/
theorem replayed_error {origin : Option String} {filters : Filters}
    {reply : Except ArchiveError Response}
    (hreply : ∀ e, reply = .error e → e.isConfiguration = false) {e : BackendError}
    (h : replayed origin filters reply = some (.error e)) : e.isConfiguration = false := by
  cases reply with
  | error e' =>
    cases h
    exact hreply e' rfl
  | ok r =>
    unfold replayed at h
    dsimp only at h
    split at h
    · cases h
    · split at h
      · cases h
        rfl
      · split at h
        · cases h
        · split at h
          · next herror =>
            cases h
            exact Record.toItem_error herror
          · split at h <;> cases h

/-- An item that a replay gives is made of the record of a response with a line, and goes on from
    the number behind it. -/
theorem replayed_eq_ok {origin : Option String} {filters : Filters}
    {reply : Except ArchiveError Response} {i : Item}
    (h : replayed origin filters reply = some (.ok i)) :
    ∃ r line, reply = .ok r ∧ (r.payload.get? "line" >>= Json.asInt64?) = some line ∧
      Record.Shaped (Number.wrapSigned64 (line + 1)) i := by
  cases reply with
  | error e => cases h
  | ok r =>
    unfold replayed at h
    dsimp only at h
    split at h
    · cases h
    · split at h
      · cases h
      · next line hline =>
        split at h
        · cases h
        · split at h
          · cases h
          · next item hitem =>
            split at h
            · cases h
            · cases h
              exact ⟨r, line, rfl, hline, Record.shaped_of_toItem hitem⟩

/-- A run can go on from what a replay makes of such a response. -/
theorem replayed_resumable {origin : Option String} {filters : Filters}
    {reply : Except ArchiveError Response} (hreply : Replayable reply)
    {result : Except BackendError Item} (h : replayed origin filters reply = some result) :
    Resumable result := by
  cases result with
  | error e =>
    refine replayed_error ?_ h
    rintro e' rfl
    exact hreply
  | ok i =>
    obtain ⟨r, line, rfl, hline, hshaped⟩ := replayed_eq_ok h
    obtain ⟨hfirst, hlast⟩ := hreply line hline
    have hnext : Number.wrapSigned64 (line + 1) = line + 1 :=
      Number.wrapSigned64_next (by omega) hlast
    rw [hnext] at hshaped
    exact hshaped.numbered (by omega)

section

variable {β κ : Type} {I : Store κ → Prop} {a : Archive} {files : FileTree}

/-- A category whose responses are on lines that can be numbered gives these, as long as its file
    stays what it is. -/
theorem responses_give (hI : ∀ s, I s → a.SameFile recordCategory files s.files)
    (hnumbered : a.Numbered recordCategory files) (after : Option Calendar.Instant)
    {env : Env β} {own : κ} (hstart : I ⟨env.files, own⟩) :
    (∃ e, a.responses recordCategory after env.files =
        (.error e : Except ArchiveError (Feed (Env β) _)) ∧ e.isConfiguration = false) ∨
      ∃ feed : Feed (Env β) (Except ArchiveError Response),
        a.responses recordCategory after env.files = .ok feed ∧
        ∀ env own, I ⟨env.files, own⟩ → (feed env).Gives I Replayable own := by
  have hsame := (hI _ hstart).located
  unfold Archive.responses
  rw [show env.files.locate _ = _ from hsame]
  cases hplace : files.locate (a.categoryPath recordCategory) with
  | error f =>
    by_cases hmissing : f = .notFound
    · rw [hmissing]
      exact .inr ⟨_, rfl, fun env own henv => .stop henv⟩
    · refine .inl ⟨.ofOpening f, ?_, rfl⟩
      cases f <;> first | rfl | exact absurd rfl hmissing
  | ok place =>
    refine .inr ⟨_, rfl, ?_⟩
    have hcontent : ∀ env : Env β, ∀ own, I ⟨env.files, own⟩ →
        env.files.content place = files.content place :=
      fun env own henv => (hI _ henv).content place hplace
    cases hnode : files.content place with
    | error f =>
      -- There is no file to read from at that place.
      have hbound : env.files.lineBound place = 1 := by
        unfold FileTree.lineBound
        rw [hcontent env own hstart, hnode]
      intro later own henv
      have hlines : Reading.lines ⟨place, 0⟩ later.files = .error f := by
        unfold Reading.lines
        rw [hcontent later own henv, hnode]
        rfl
      rw [hbound]
      unfold Feed.unfold Archive.advance
      rw [hlines]
      exact .item henv rfl fun _ _ h => .stop h
    | ok content =>
      have hfuel := length_lines_lt_lineBound ((hcontent env own hstart).trans hnode)
      intro later own henv
      have hreads := Archive.unfold_reads after (env.files.lineBound place) 0 hfuel later
        ((hcontent later own henv).trans hnode)
      rw [List.drop_zero] at hreads
      refine hreads.gives (fun env own henv => (hcontent env own henv).trans hnode) ?_ henv
      intro reply hreply
      cases reply with
      | error e => exact Archive.readLines_error_transient hreply
      | ok r => exact hnumbered place content hplace hnode r (Archive.mem_readLines hreply)

/-- A replay with arguments that are accepted is one from which a run can go on, as long as the
    file of the archive stays what it is, and its responses are on lines that can be numbered. -/
theorem replay_opens {args : Fields} {origin : Option String} {filters : Filters}
    (hI : ∀ s, I s → a.SameFile recordCategory files s.files)
    (hnumbered : a.Numbered recordCategory files) (horigin : AsksFor args origin)
    (hfilters : Filters.ofArgs args = .ok filters) (after : Option Calendar.Instant)
    {env : Env β} {own : κ} (hstart : I ⟨env.files, own⟩) :
    Opens I own ((Lines.backend disk).replay recordCategory args a after env) := by
  show Opens I own (replay recordCategory args a after env, env)
  rcases responses_give hI hnumbered after hstart with ⟨e, herror, htransient⟩ |
    ⟨feed, hfeed, hgives⟩
  · rw [replay_of_accepted horigin hfilters, herror]
    exact .failed hstart htransient
  · rw [replay_of_asked horigin hfilters hfeed]
    refine .given hstart ?_
    intro env own henv
    exact (hgives env own henv).filterMap fun reply result hreply hresult =>
      replayed_resumable hreply hresult

end

end Lines

end Harvest
