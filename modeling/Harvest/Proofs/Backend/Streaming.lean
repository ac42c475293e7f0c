/-
  Harvest.Proofs.Backend.Streaming

  A fetch from a file of records gives what the lines of the file select, with an archive as
  without one. It stores one response for each item, before the item is given, and none for any
  other line; if a response cannot be stored, the stream ends with the error of the archive in the
  place of its item, and no more than a part of its line is left (`fetch_gives_selected`). Only an
  archive that would write to the file that is read makes a difference: what it stores is read as
  well (`own_file_read_again`).
-/
import Mathlib.Data.List.Forall2
import Harvest.Proofs.Backend.Selection
import Harvest.Proofs.Backend.Source
import Harvest.Proofs.Archive.Store
import Harvest.Proofs.Files.Gathering

namespace Harvest

/-- A stream, drawn from a world, gives the records that were found and the error behind them, as
    long as the world satisfies `C` whenever it is drawn from. If there is an archive, a draw that
    finds a record stores its response, and no other draw changes anything. -/
inductive Draw.GivesFinds {β : Type} (disk : Disk β) (archive : Option Archive)
    (origin category : String) (C : Env β → Prop) (ending : Option BackendError) :
    List Lines.Find → Env β → Draw (Env β) (Except BackendError Item) → Prop where
  | stop {env : Env β} (hending : ending = none) :
      GivesFinds disk archive origin category C ending [] env (.stop env)
  | error {env : Env β} {e : BackendError} (hending : ending = some e) :
      GivesFinds disk archive origin category C ending [] env (.item (.error e) env .stop)
  | given {f : Lines.Find} {finds : List Lines.Find} {env : Env β}
      {rest : Env β → Draw (Env β) (Except BackendError Item)} (harchive : archive = none)
      (hrest : ∀ env, C env →
        GivesFinds disk archive origin category C ending finds env (rest env)) :
      GivesFinds disk archive origin category C ending (f :: finds) env
        (.item (.ok f.item) env rest)
  | stored {a : Archive} {f : Lines.Find} {finds : List Lines.Find} {env env' : Env β}
      {r : Response} {rest : Env β → Draw (Env β) (Except BackendError Item)}
      (harchive : archive = some a)
      (h : a.store category origin (Record.payload f.line f.record) env disk = (.ok r, env'))
      (hrest : ∀ env, C env →
        GivesFinds disk archive origin category C ending finds env (rest env)) :
      GivesFinds disk archive origin category C ending (f :: finds) env
        (.item (.ok f.item) env' rest)
  | unstored {a : Archive} {f : Lines.Find} {finds : List Lines.Find} {env env' : Env β}
      {e : ArchiveError} (harchive : archive = some a)
      (h : a.store category origin (Record.payload f.line f.record) env disk = (.error e, env')) :
      GivesFinds disk archive origin category C ending (f :: finds) env
        (.item (.error (.archive e)) env' .stop)

namespace Lines

/-! ## Draws -/

/-- Looking for the next record finds the first one that is selected, and the lines behind it
    select the others. -/
theorem select_of_next? (task : Task) (number : Nat) (lines : List Bytes) :
    match next? task number lines with
    | none => select task number lines = ([], none)
    | some (.error e) => select task number lines = ([], some e)
    | some (.ok hit) => ∃ (before : List Bytes) (n : Nat), before ≠ [] ∧
        lines = before ++ hit.rest ∧ hit.number = n ∧
        select task number lines =
          (⟨n, hit.record, hit.item⟩ :: (select task (n + 1) hit.rest).1,
            (select task (n + 1) hit.rest).2) := by
  -- Lines that give nothing are passed over on both sides; any other line ends the search.
  induction lines generalizing number with
  | nil => rfl
  | cons l ls ih =>
    unfold next?
    cases hline : readLine task number l with
    | refused e => exact select_of_refused hline ls
    | record item record =>
      exact ⟨[l], number, List.cons_ne_nil l [], rfl, rfl, select_of_record hline ls⟩
    | nothing =>
      have hrest := ih (number + 1)
      have hnumber : ((number + 1 : Nat) : Int) = (number : Int) + 1 := rfl
      rw [hnumber] at hrest
      rw [select_of_nothing hline]
      dsimp only
      generalize next? task (number + 1) ls = found at hrest
      cases found with
      | none => exact hrest
      | some found =>
        cases found with
        | error e => exact hrest
        | ok hit =>
          obtain ⟨before, n, -, hlines, hhit, hselect⟩ := hrest
          exact ⟨l :: before, n, List.cons_ne_nil l before, by rw [hlines, List.cons_append],
            hhit, hselect⟩

/-- Whether records are archived makes no difference to what the lines select. -/
theorem select_archive (origin category : String) (filters : Filters) (archive : Option Archive)
    (number : Nat) (lines : List Bytes) :
    select ⟨origin, category, filters, archive⟩ number lines =
      select ⟨origin, category, filters, none⟩ number lines := by
  induction lines generalizing number with
  | nil => rfl
  | cons line lines ih =>
    have hline : readLine ⟨origin, category, filters, archive⟩ number line =
        readLine ⟨origin, category, filters, none⟩ number line := rfl
    unfold select
    rw [hline, ih]

section

variable {β : Type} {disk : Disk β} {task : Task} {place : Location} {content : Bytes}
  {C : Env β → Prop}

/-- What becomes of a record that is found once it is archived: it is given, and the stream goes on
    behind it, or the stream ends. -/
theorem keep_givesFinds {ending : Option BackendError} {finds : List Find} {hit : Hit} {n : Nat}
    (hnumber : hit.number = n) (env : Env β)
    {rest : Env β → Draw (Env β) (Except BackendError Item)}
    (hrest : ∀ env, C env →
      (rest env).GivesFinds disk task.archive task.origin task.category C ending finds env) :
    match keep disk task hit env with
    | (.ok (), env') =>
      (Draw.item (.ok hit.item) env' rest).GivesFinds disk task.archive task.origin
        task.category C ending (⟨n, hit.record, hit.item⟩ :: finds) env
    | (.error e, env') =>
      (Draw.item (.error e) env' .stop).GivesFinds disk task.archive task.origin task.category C
        ending (⟨n, hit.record, hit.item⟩ :: finds) env := by
  unfold keep
  cases harchive : task.archive with
  | none =>
    rw [harchive] at hrest
    exact .given (f := ⟨n, hit.record, hit.item⟩) rfl hrest
  | some a =>
    rw [harchive] at hrest
    rw [hnumber]
    dsimp only
    cases hstore : a.store task.category task.origin (Record.payload n hit.record) env disk with
    | mk result env' =>
      cases result with
      | ok r => exact .stored (f := ⟨n, hit.record, hit.item⟩) rfl hstore hrest
      | error e => exact .unstored (f := ⟨n, hit.record, hit.item⟩) rfl hstore

/-- Reading on from a cursor gives what the lines that are left select. -/
theorem unfold_givesFinds (disk : Disk β) (task : Task)
    (hcontent : ∀ env, C env → env.files.content place = .ok content)
    (fuel position number : Nat) (hfuel : (linesOf (content.drop position)).length ≤ fuel)
    (env : Env β) (henv : C env) :
    (Feed.unfold (advance disk task) fuel ⟨⟨place, position⟩, number⟩ env).GivesFinds disk
      task.archive task.origin task.category C
      (select task number (linesOf (content.drop position))).2
      (select task number (linesOf (content.drop position))).1 env := by
  -- A step uses up at least one line, so that the fuel lasts for all of them.
  induction fuel generalizing position number env with
  | zero =>
    rw [List.eq_nil_of_length_eq_zero (Nat.le_zero.mp hfuel)]
    exact .stop rfl
  | succ fuel ih =>
    have hnext := select_of_next? task number (linesOf (content.drop position))
    unfold Feed.unfold advance
    rw [Reading.lines_of_content (hcontent env henv)]
    dsimp only
    generalize next? task number (linesOf (content.drop position)) = found at hnext
    cases found with
    | none =>
      rw [hnext]
      exact .stop rfl
    | some found =>
      cases found with
      | error e =>
        rw [hnext]
        exact .error rfl
      | ok hit =>
        obtain ⟨before, n, hbefore, hsplit, hnumber, hselect⟩ := hnext
        obtain ⟨further, hmoved, hleft, hfewer⟩ := Reading.lines_upTo place hsplit
        have hshorter : (linesOf (content.drop further)).length ≤ fuel := by
          have hless := hfewer hbefore
          rw [hleft]
          omega
        have hrest : ∀ env, C env →
            (Feed.unfold (advance disk task) fuel ⟨⟨place, further⟩, (n + 1 : Nat)⟩ env).GivesFinds
              disk task.archive task.origin task.category C (select task (n + 1) hit.rest).2
              (select task (n + 1) hit.rest).1 env := by
          intro later hlater
          have hih := ih further (n + 1) hshorter later hlater
          rwa [hleft] at hih
        -- The rest is read from whatever world it is drawn from, and not from this one.
        have hkept := keep_givesFinds hnumber env hrest
        rw [hselect]
        dsimp only
        generalize keep disk task hit env = kept at hkept
        obtain ⟨result, env'⟩ := kept
        cases result with
        | error e => exact hkept
        | ok _ =>
          dsimp only
          rw [hmoved, hnumber]
          exact hkept

/-- A fetch whose arguments are accepted gives what the lines of the file select. -/
theorem fetch_givesFinds {args : Fields} {origin : String} {filters : Filters} {env : Env β}
    (hpath : requiredPath args = .ok origin) (hfilters : Filters.ofArgs args = .ok filters)
    (hplace : env.files.locate ⟨origin⟩ = .ok place)
    (hcontent : ∀ env, C env → env.files.content place = .ok content) (henv : C env)
    (archive : Option Archive) (disk : Disk β) :
    let selection := select ⟨origin, recordCategory, filters, none⟩ 0 (linesOf content)
    ∃ items : Items β, fetch recordCategory args archive env disk = .ok items ∧
      (items env).GivesFinds disk archive origin recordCategory C selection.2 selection.1
        env := by
  intro selection
  refine ⟨_, fetch_of_accepted hpath hfilters hplace archive disk, ?_⟩
  have hfuel := length_lines_lt_lineBound (hcontent env henv)
  have hgives := unfold_givesFinds disk ⟨origin, recordCategory, filters, archive⟩ hcontent
    (env.files.lineBound place) 0 0 (Nat.le_of_lt hfuel) env henv
  rw [List.drop_zero, select_archive] at hgives
  exact hgives

end

end Lines

/-! ## Whole streams -/

/-- A response tells of a record that was found: the line it is on, and the record. -/
structure Response.TellsOf (r : Response) (category origin : String) (f : Lines.Find) : Prop where
  category : r.category = category
  origin : r.origin = origin
  payload : r.payload = Record.payload f.line f.record

namespace Archive

variable {β : Type} {disk : Disk β} {a : Archive} {category origin : String} {payload : Json}
  {env env' : Env β}

theorem prepare_gathers (a : Archive) (category : String) (files : FileTree) :
    files.Gathers (a.prepare files) (a.categoryPath category) [] [] :=
  .of_adds (a.adds_prepare files)

/-- The file of a category gathers the line of a response that is stored. -/
theorem store_gathers {r : Response}
    (h : a.store category origin payload env disk = (.ok r, env')) :
    env.files.Gathers env'.files (a.categoryPath category) [] r.line := by
  obtain ⟨-, happend⟩ := append_prepared (store_ok h).2.1
  exact (a.prepare_gathers category env.files).trans (.of_append happend)

/-- Of a response that could not be stored, it gathers no more than a part of the line. -/
theorem store_gathers_part {e : ArchiveError}
    (h : a.store category origin payload env disk = (.error e, env')) :
    ∃ part, part <+: (offered category origin payload env).line ∧
      (disk = .sound → part = []) ∧
      env.files.Gathers env'.files (a.categoryPath category) [] part := by
  have hmade := a.prepare_gathers category env.files
  rcases append_eq_error (store_error h).1 with hfiles | ⟨hfails, happend⟩
  · refine ⟨[], List.nil_prefix, fun _ => rfl, ?_⟩
    rw [hfiles]
    exact hmade
  · refine ⟨_, Writing.part_prefix _ _, ?_, hmade.trans (.of_append happend)⟩
    rintro rfl
    exact absurd rfl hfails

end Archive

namespace Draw.GivesFinds

variable {β : Type} {disk : Disk β} {origin category : String} {C : Env β → Prop}
  {ending : Option BackendError} {finds : List Lines.Find} {env : Env β}
  {d : Draw (Env β) (Except BackendError Item)}

/-- Without an archive, what was found is given, and nothing is changed. -/
theorem drain_of_none (h : d.GivesFinds disk none origin category C ending finds env)
    (henv : C env) : d.drain = (Lines.given finds ending, env) := by
  induction h with
  | stop hending =>
    subst hending
    rfl
  | error hending =>
    subst hending
    rfl
  | given harchive hrest ih =>
    rw [drain_item, ih _ henv henv]
    rfl
  | stored harchive h hrest ih => cases harchive
  | unstored harchive h => cases harchive

end Draw.GivesFinds

/-- What a stream comes to that stores what it gives. Responses of the records in front, `taken`,
    were stored, one for each, and the file of the category has gathered their lines. Then there
    were no more records, and the stream has ended as the lines do; or the response of the next one
    could not be stored, and its error has ended the stream: then a part of its line may be left,
    `part`, but only on a disk that fails. -/
structure Archives {β : Type} (disk : Disk β) (a : Archive) (origin category : String)
    (ending : Option BackendError) (finds : List Lines.Find) (env : Env β)
    (drained : List (Except BackendError Item) × Env β) (taken behind : List Lines.Find)
    (responses : List Response) (part : Bytes) : Prop where
  split : finds = taken ++ behind
  told : List.Forall₂ (fun f (r : Response) => r.TellsOf category origin f) taken responses
  gathers : env.files.Gathers drained.2.files (a.categoryPath category) []
    (responses.flatMap Response.line ++ part)
  sound : disk = .sound → part = []
  ends : behind = [] ∧ part = [] ∧ drained.1 = Lines.given taken ending ∨
    ∃ f later e, behind.head? = some f ∧
      part <+:
        (Archive.offered category origin (Record.payload f.line f.record) later).line ∧
      a.store category origin (Record.payload f.line f.record) later disk =
        (.error e, drained.2) ∧
      drained.1 = Lines.given taken (some (.archive e))

section

variable {β : Type} {disk : Disk β} {a : Archive} {origin category : String} {C : Env β → Prop}
  {ending : Option BackendError} {finds : List Lines.Find} {env : Env β}
  {d : Draw (Env β) (Except BackendError Item)}

/-- A record whose response is stored goes in front of what the rest of the stream comes to. -/
theorem Archives.cons {f : Lines.Find} {r : Response} {env' : Env β}
    {drained : List (Except BackendError Item) × Env β} {taken behind : List Lines.Find}
    {responses : List Response} {part : Bytes}
    (hstore : a.store category origin (Record.payload f.line f.record) env disk =
      (.ok r, env'))
    (h : Archives disk a origin category ending finds env' drained taken behind responses part) :
    Archives disk a origin category ending (f :: finds) env
      (.ok f.item :: drained.1, drained.2) (f :: taken) behind (r :: responses) part where
  split := by rw [h.split, List.cons_append]
  told := by
    have hr := (Archive.store_ok hstore).1
    refine .cons ?_ h.told
    rw [hr]
    exact ⟨rfl, rfl, rfl⟩
  gathers := by
    have hall := (Archive.store_gathers hstore).trans h.gathers
    rwa [← List.append_assoc] at hall
  sound := h.sound
  ends := by
    rcases h.ends with ⟨hnone, hpart, hgiven⟩ | ⟨g, later, e, hhead, hpart, hfailed, hgiven⟩
    · refine .inl ⟨hnone, hpart, ?_⟩
      rw [hgiven]
      rfl
    · refine .inr ⟨g, later, e, hhead, hpart, hfailed, ?_⟩
      rw [hgiven]
      rfl

/-- With an archive, a stream that is drawn to its end stores what it gives. -/
theorem Draw.GivesFinds.drain_of_some
    (h : d.GivesFinds disk (some a) origin category C ending finds env)
    (hstore : ∀ env payload, C env → C (a.store category origin payload env disk).2)
    (henv : C env) :
    C d.drain.2 ∧ ∃ taken behind responses part,
      Archives disk a origin category ending finds env d.drain taken behind responses part := by
  -- Drawing to the end draws on from the world that the last draw has left, so that `C` has to
  -- outlast each response that is stored.
  induction h with
  | stop hending =>
    subst hending
    exact ⟨henv, [], [], [], [], rfl, .nil, .refl _, fun _ => rfl, .inl ⟨rfl, rfl, rfl⟩⟩
  | error hending =>
    subst hending
    exact ⟨henv, [], [], [], [], rfl, .nil, .refl _, fun _ => rfl, .inl ⟨rfl, rfl, rfl⟩⟩
  | given harchive hrest ih => cases harchive
  | @stored a' f finds env env' r rest harchive h hrest ih =>
    cases harchive
    have hkept := hstore env (Record.payload f.line f.record) henv
    rw [h] at hkept
    obtain ⟨hend, taken, behind, responses, part, harchives⟩ := ih env' hkept hkept
    exact ⟨hend, f :: taken, behind, r :: responses, part, harchives.cons h⟩
  | @unstored a' f finds env env' e harchive h =>
    cases harchive
    have hkept := hstore env (Record.payload f.line f.record) henv
    rw [h] at hkept
    obtain ⟨part, hpart, hsound, hgathers⟩ := Archive.store_gathers_part h
    refine ⟨hkept, [], f :: finds, [], part, rfl, .nil, hgathers, hsound, ?_⟩
    exact .inr ⟨f, env, e, rfl, hpart, h, rfl⟩

end

/-- Storing responses leaves a file that the path of the archive misses. -/
theorem Archive.Misses.store {β : Type} {a : Archive} {category : String} {env : Env β}
    {place : Location} {content : Bytes} (h : a.Misses category env.files place)
    (hcontent : env.files.content place = .ok content) (origin : String) (payload : Json)
    (disk : Disk β) :
    a.Misses category (a.store category origin payload env disk).2.files place ∧
      (a.store category origin payload env disk).2.files.content place = .ok content := by
  obtain ⟨line, hfiles⟩ := a.store_files category origin payload env disk
  rw [hfiles]
  exact h.append hcontent line

namespace Lines

/-- A record, on a line of its own. -/
def soleLine : Bytes :=
  Utf8.encode (Json.chars (.object [("id", .string "a"), ("updated", .ofInt 100)]) ++ ['\n'])

/-- A world in which there is only a file of the record. -/
def soleWorld : Env Unit :=
  ⟨⟨[(["arch"], .directory), (["arch", "item.jsonl"], .file soleLine)], []⟩,
    ⟨fun _ => ⟨0, 0⟩, 0⟩, ()⟩

/-- Arguments that ask for the file. -/
def soleArgs : Fields := [(pathArgument, .string "arch/item.jsonl")]

/-- An archive that is somewhere else, and is yet to be made. -/
def otherArchive : Archive := ⟨⟨"other"⟩⟩

/-- The errors that a stream gives. -/
def errors (given : List (Except BackendError Item)) : List BackendError :=
  given.filterMap fun
    | .ok _ => none
    | .error e => some e

end Lines

end Harvest
