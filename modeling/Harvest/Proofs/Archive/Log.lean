/-
  Harvest.Proofs.Archive.Log

  An archive as a log of each category. Whoever stores and reads, the file of a category holds the
  lines of the responses that were stored for it, in the order in which they were (`holds_log`): a
  response for another category goes to another file (`holds_of_other`), and reading changes
  nothing. So the category gives those responses, or those later than an instant if one is given
  (`responses_of_history`).
-/
import Harvest.Proofs.Archive.Reading
import Harvest.Proofs.Files.Joining
import Harvest.Proofs.Json.Parsed

namespace Harvest

namespace Calendar.Instant

/-- An instant lies in front of another. -/
def Before (t u : Instant) : Prop :=
  t.seconds < u.seconds ∨ t.seconds = u.seconds ∧ t.nanos < u.nanos

instance (t u : Instant) : Decidable (t.Before u) :=
  inferInstanceAs (Decidable (_ ∨ _))

/-- What is not later than an instant lies in front of it or is the same. -/
theorem not_le (t u : Instant) : (!u.le t) = decide (t.Before u) := by
  rw [Bool.eq_iff_iff, decide_eq_true_iff]
  unfold le Before
  simp only [Bool.not_eq_true', Bool.or_eq_false_iff, Bool.and_eq_false_iff,
    decide_eq_false_iff_not, beq_eq_false_iff_ne, Int.not_lt, Nat.not_le]
  omega

end Calendar.Instant

/-- A value that a response can have: nothing that reading a text could not give is in it, and it
    is one level below the outermost one that a text may have. -/
structure Json.Storable (v : Json) : Prop where
  parsed : v.Parsed
  real : ∀ x, Within (.number (.real x)) v → (Number.real x).ReadsBack
  depth : v.depth ≤ 126

/-- A response is one of a category, and later than an instant if one is given. -/
def Response.IsFor (category : String) (after : Option Calendar.Instant) (r : Response) : Prop :=
  r.category = category ∧ ∀ t ∈ after, t.Before r.archivedAt

instance (category : String) (after : Option Calendar.Instant) (r : Response) :
    Decidable (r.IsFor category after) :=
  inferInstanceAs (Decidable (_ ∧ _))

/-- A path leads to a directory that has nothing in it. -/
def FileTree.IsEmptyDirectory (t : FileTree) (p : Path) : Prop :=
  ∃ m, t.locate p = .ok m ∧ t.node? m = some .directory ∧ ∀ name, t.node? (m ++ [name]) = none

namespace Archive

/-- Someone has opened the archive of a path. -/
def Opened (path : Path) (a : Archive) : Prop := ∃ files, openAt files path = .ok a

/-- The directory of an archive is empty, or it is missing and will be empty once it is made. -/
inductive StartsEmpty (path : Path) (files : FileTree) : Prop where
  | made (h : files.IsEmptyDirectory path)
  | missing (h : files.locate path = .error .notFound)
      (hmade : (files.makeDirectories path).2.IsEmptyDirectory path)

/-- The file of a category can have its name. -/
def Nameable (a : Archive) (category : String) : Prop := a.path.CanName (category ++ ".jsonl")

/-- What those who have opened the archive of a path have stored up to now, each response with
    success, and the world after it. They may read at any time. -/
inductive History {β : Type} (path : Path) (first : Env β) : List Response → Env β → Prop where
  | start : History path first [] first
  | stored {log : List Response} {env env' : Env β} {a : Archive} {category origin : String}
      {payload : Json} {r : Response} {disk : Disk β} (before : History path first log env)
      (ha : Opened path a) (hcategory : '/' ∉ category.toList) (hpayload : payload.Storable)
      (h : a.store category origin payload env disk = (.ok r, env')) :
      History path first (log ++ [r]) env'
  | read {log : List Response} {env : Env β} (after : Option Calendar.Instant)
      (reading : Reading) (before : History path first log env) :
      History path first log (advance after reading env).2

/-! ## Names of categories -/

section

variable {a : Archive} {c d : String} {files u : FileTree} {path : Path} {line bs : Bytes}

theorem Opened.eq (h : Opened path a) : path.text ≠ "" ∧ a = ⟨path⟩ := by
  obtain ⟨files, h⟩ := h
  unfold openAt at h
  split at h
  · cases h
  · next hpath =>
    split at h
    · cases h
    · cases h
      exact ⟨hpath, rfl⟩

/-- A category whose file is there has a name that it can have. -/
theorem nameable_of_locate {l : Location} (hc : '/' ∉ c.toList)
    (h : files.locate (a.categoryPath c) = .ok l) : a.Nameable c :=
  FileTree.canName_of_locate (Path.slash_notMem_fileName hc) (Path.fileName_own c) h

/-! ## The directory of an archive -/

variable {m : Location}

/-- The file of a category is in the directory. -/
theorem locate_category (h : files.DirectoryAt a.path m) (hc : a.Nameable c) :
    files.locate (a.categoryPath c) =
      if (files.node? (m ++ [c ++ ".jsonl"])).isNone = true then .error .notFound
      else .ok (m ++ [c ++ ".jsonl"]) :=
  h.locate_join hc

/-- The directory is not made again. -/
theorem prepare_eq (h : files.DirectoryAt a.path m) (hp : a.path.text ≠ "") (hc : a.Nameable c) :
    a.prepare files = files := by
  have hpath := FileTree.checkPath_of_join hp hc
  unfold prepare
  rw [h.makeDirectories hpath]

/-- What a category holds is in the directory, under the name of its file. -/
theorem holds_iff (h : files.DirectoryAt a.path m) (hp : a.path.text ≠ "") (hc : a.Nameable c) :
    a.Holds c files bs ↔
      files.node? (m ++ [c ++ ".jsonl"]) = none ∧ bs = [] ∨
        files.node? (m ++ [c ++ ".jsonl"]) = some (.file bs) := by
  have hfile := locate_category h hc
  cases hnode : files.node? (m ++ [c ++ ".jsonl"]) with
  | none =>
    rw [hnode, Option.isNone_none, if_pos rfl] at hfile
    constructor
    · intro hholds
      cases hholds with
      | none => exact .inl ⟨rfl, rfl⟩
      | file hfound =>
        obtain ⟨k, hk, -⟩ := locate_of_found hfound
        rw [hfile] at hk
        cases hk
    · rintro (⟨-, rfl⟩ | hsome)
      · have hsame := prepare_eq h hp hc
        exact .none (lacks_of_prepared hfile (by rw [hsame]; exact hfile) (by rw [hsame, hsame]))
      · cases hsome
  | some n =>
    rw [hnode, Option.isNone_some, if_neg Bool.false_ne_true] at hfile
    constructor
    · intro hholds
      cases hholds with
      | none hlacks =>
        rw [hlacks.notFound] at hfile
        cases hfile
      | file hfound =>
        obtain ⟨k, hk, hcontent⟩ := locate_of_found hfound
        rw [hfile] at hk
        cases hk
        unfold FileTree.content at hcontent
        rw [hnode] at hcontent
        cases n with
        | directory => cases hcontent
        | file content =>
          cases hcontent
          exact .inr rfl
    · rintro (⟨hnone, -⟩ | hsome)
      · cases hnone
      · cases hsome
        apply Holds.file
        rw [found_of_locate hfile]
        unfold FileTree.content
        rw [hnode]

/-- In a directory that is empty, or will be once it is made, no category holds anything. -/
theorem holds_of_startsEmpty (hp : a.path.text ≠ "") (hc : a.Nameable c)
    (h : StartsEmpty a.path files) : a.Holds c files [] := by
  cases h with
  | made h =>
    obtain ⟨m, hlocate, hdirectory, hempty⟩ := h
    exact (holds_iff (.of_locate hlocate hdirectory) hp hc).mpr (.inl ⟨hempty _, rfl⟩)
  | missing h hmade =>
    obtain ⟨m, hlocate, hdirectory, hempty⟩ := hmade
    have hmade : (a.prepare files).DirectoryAt a.path m := .of_locate hlocate hdirectory
    have hmissing := FileTree.walk_of_missing (FileTree.locate_eq_ok hlocate).1 h
    have hfile := locate_category hmade hc
    have hnone : (a.prepare files).node? (m ++ [c ++ ".jsonl"]) = none := hempty _
    rw [hnone, Option.isNone_none, if_pos rfl] at hfile
    exact .none (lacks_of_prepared (FileTree.locate_join_of_missing hc hmissing) hfile
      (prepare_eq hmade hp hc))

/-- What the file of a category holds stays when a line is appended for another category. -/
theorem holds_of_other (hp : a.path.text ≠ "") (hc : a.Nameable c) (hd : '/' ∉ d.toList)
    (hne : c ≠ d) (happend : a.append d line files = (.ok (), u)) (h : a.Holds c files bs) :
    a.Holds c u bs := by
  obtain ⟨l, old, happends⟩ := append_eq_ok happend
  have hnameable := nameable_of_locate hd happends.located
  obtain ⟨m, old', hwalk, hdirectory, -, hput⟩ :=
    FileTree.append_join hnameable (append_prepared happend).2
  have hbefore : (a.prepare files).DirectoryAt a.path m := ⟨hwalk, hdirectory⟩
  have hafter := hbefore.grows happends.grows
  -- The line is put into the directory under another name.
  have hother : m ++ [c ++ ".jsonl"] ≠ m ++ [d ++ ".jsonl"] := by
    intro heq
    rw [List.append_cancel_left_eq, List.cons.injEq] at heq
    exact hne (Path.fileName_injective heq.1)
  have hnode : u.node? (m ++ [c ++ ".jsonl"]) =
      (a.prepare files).node? (m ++ [c ++ ".jsonl"]) := by
    rw [hput, FileTree.node?_put _ (by simp), if_neg hother]
  rw [holds_iff hafter hp hc, hnode, ← holds_iff hbefore hp hc]
  exact h.prepare

end

/-! ## Histories of an archive -/

section

variable {β : Type} {path : Path} {first env : Env β} {log : List Response} {a : Archive}
  {c : String}

/-- A reader that goes on leaves the world alone. -/
theorem advance_env (after : Option Calendar.Instant) (reading : Reading) (env : Env β) :
    (advance after reading env).2 = env := by
  unfold advance
  split
  · rfl
  · split <;> rfl

/-- The clock goes on as it would have. -/
theorem History.shown (h : History path first log env) : env.clock.shown = first.clock.shown := by
  induction h with
  | start => rfl
  | stored before ha hcategory hpayload hstore ih =>
    rw [(store_ok hstore).2.2]
    exact ih
  | read after reading before ih =>
    rw [advance_env]
    exact ih

/-- What was stored can be read back. -/
theorem History.readsBack (h : History path first log env)
    (hshown : ∀ n, (first.clock.shown n).Shows) : ∀ r ∈ log, r.ReadsBack := by
  induction h with
  | start => exact nofun
  | @stored log env env' a category origin payload r disk before ha hcategory hpayload hstore ih =>
    intro s hs
    rcases List.mem_append.mp hs with hs | hs
    · exact ih s hs
    · rw [List.mem_singleton.mp hs, (store_ok hstore).1]
      have hclock : (env.clock.read.1).Shows := by
        show (env.clock.shown env.clock.readings).Shows
        rw [before.shown]
        exact hshown _
      exact ⟨hclock, hpayload.parsed.readsBack hpayload.real, hpayload.depth⟩
  | read after reading before ih => exact ih

/-- Only categories whose files can have their names were stored for. -/
theorem History.nameable (h : History path first log env) :
    ∀ r ∈ log, Nameable ⟨path⟩ r.category := by
  induction h with
  | start => exact nofun
  | stored before ha hcategory hpayload hstore ih =>
    intro s hs
    rcases List.mem_append.mp hs with hs | hs
    · exact ih s hs
    · obtain ⟨-, rfl⟩ := ha.eq
      obtain ⟨hr, happend, -⟩ := store_ok hstore
      obtain ⟨l, old, happends⟩ := append_eq_ok happend
      rw [List.mem_singleton.mp hs, hr]
      exact nameable_of_locate hcategory happends.located
  | read after reading before ih => exact ih

/-- The file of a category holds the lines of its responses, in the order in which they were
    stored. -/
theorem holds_log (h : History path first log env) (hempty : StartsEmpty path first.files)
    (hp : path.text ≠ "") (hc : Nameable ⟨path⟩ c) :
    Holds ⟨path⟩ c env.files ((log.filter fun r => r.category = c).flatMap Response.line) := by
  induction h with
  | start => exact holds_of_startsEmpty hp hc hempty
  | @stored log env env' a category origin payload r disk before ha hcategory hpayload hstore ih =>
    obtain ⟨-, rfl⟩ := ha.eq
    obtain ⟨hr, happend, -⟩ := store_ok hstore
    have hcategory' : r.category = category := by rw [hr]; rfl
    rw [List.filter_append, List.flatMap_append]
    -- The line goes behind those of its own category, and past those of any other.
    by_cases hsame : category = c
    · subst hsame
      have hfound := append_ok happend ih
      simpa [hcategory'] using Holds.file hfound
    · have hkept := holds_of_other hp hc hcategory (Ne.symm hsame) happend ih
      simpa [hcategory', hsame] using hkept
  | read after reading before ih =>
    rw [advance_env]
    exact ih

theorem filter_isFor (c : String) (after : Option Calendar.Instant) (log : List Response) :
    (log.filter fun r => r.category = c).filter (isLater after) = log.filter (·.IsFor c after) := by
  rw [List.filter_filter]
  congr 1
  funext r
  cases after with
  | none => simp [isLater, Response.IsFor]
  | some t =>
    simp [isLater, Response.IsFor, Calendar.Instant.not_le, Bool.and_comm]

/-- However responses were stored and read in an archive that started empty, a category gives
    those that were stored for it, in that order: all of them, or those later than an instant if
    one is given. Its file can be opened, or is missing, if it can have its name. -/
theorem responses_of_history (hempty : StartsEmpty path first.files)
    (hshown : ∀ n, (first.clock.shown n).Shows) (h : History path first log env)
    (ha : Opened path a) (hc : '/' ∉ c.toList) (after : Option Calendar.Instant) :
    (a.Nameable c → ∃ feed : Feed (Env β) (Except ArchiveError Response),
        a.responses c after env.files = .ok feed) ∧
      ∀ feed : Feed (Env β) (Except ArchiveError Response),
        a.responses c after env.files = .ok feed →
        (feed env).drain = ((log.filter (·.IsFor c after)).map .ok, env) := by
  obtain ⟨hp, rfl⟩ := ha.eq
  have hback : ∀ r ∈ log.filter fun r => r.category = c, r.ReadsBack :=
    fun r hr => h.readsBack hshown r (List.mem_filter.mp hr).1
  by_cases hnameable : Nameable ⟨path⟩ c
  · have hsame : found ⟨path⟩ c env.files = found ⟨path⟩ c env.files := rfl
    obtain ⟨feed, hfeed, hdrain⟩ :=
      responses_of_holds (holds_log h hempty hp hnameable) hback hsame after
    rw [filter_isFor] at hdrain
    refine ⟨fun _ => ⟨feed, hfeed⟩, ?_⟩
    intro feed' hfeed'
    rw [hfeed] at hfeed'
    cases hfeed'
    exact hdrain
  · refine ⟨fun h => absurd h hnameable, ?_⟩
    intro feed hfeed
    -- Nothing was stored for the category, and it cannot have a file.
    have hnone : log.filter (·.IsFor c after) = [] := by
      rw [List.filter_eq_nil_iff]
      intro r hr hfor
      have hcategory := (of_decide_eq_true hfor).1
      rw [← hcategory] at hnameable
      exact hnameable (h.nameable r hr)
    unfold responses at hfeed
    split at hfeed
    · cases hfeed
      rw [hnone]
      rfl
    · cases hfeed
    · next l hlocate => exact absurd (nameable_of_locate hc hlocate) hnameable

end

/-- A world without files, in which the clock shows one instant and from then on a later one. -/
def bareWorld : Env Unit :=
  ⟨⟨[], []⟩, ⟨fun n => if n = 0 then ⟨0, 0⟩ else ⟨1, 0⟩, 0⟩, ()⟩

theorem bareWorld_startsEmpty : StartsEmpty ⟨"arch"⟩ bareWorld.files := by
  refine .missing rfl ⟨["arch"], rfl, rfl, ?_⟩
  intro name
  have hne : ["arch"] ++ [name] ≠ ["arch"] := by simp
  show (FileTree.put ⟨[], []⟩ ["arch"] .directory).node? (["arch"] ++ [name]) = none
  rw [FileTree.node?_put _ (by simp), if_neg hne]
  rfl

theorem bareWorld_shows (n : Nat) : (bareWorld.clock.shown n).Shows := by
  unfold bareWorld
  dsimp only
  split
  · exact ⟨by decide, .inl (by decide)⟩
  · exact ⟨by decide, .inl (by decide)⟩

theorem storable_null : Json.Storable .null := ⟨.null, (fun _ h => nomatch h), Nat.zero_le _⟩

def bareArchive : Archive := ⟨⟨"arch"⟩⟩

/-- The world after a response was stored for each of several categories. -/
def worldAfter (categories : List String) : Env Unit :=
  categories.foldl (fun env category => (bareArchive.store category "a" .null env).2) bareWorld

theorem bareArchive_opened : Opened ⟨"arch"⟩ bareArchive := ⟨bareWorld.files, rfl⟩

/-- Of three responses, the second one for another category, only the last is later than the first
    and of the same category. -/
theorem last_of_three_responses :
    StartsEmpty ⟨"arch"⟩ bareWorld.files ∧ (∀ n, (bareWorld.clock.shown n).Shows) ∧
      Opened ⟨"arch"⟩ bareArchive ∧ '/' ∉ "item".toList ∧
      History ⟨"arch"⟩ bareWorld [⟨"item", "a", ⟨0, 0⟩, .null⟩, ⟨"other", "a", ⟨1, 0⟩, .null⟩,
        ⟨"item", "a", ⟨1, 0⟩, .null⟩] (worldAfter ["item", "other", "item"]) ∧
      ∃ feed : Feed (Env Unit) (Except ArchiveError Response),
        bareArchive.responses "item" (some ⟨0, 0⟩)
          (worldAfter ["item", "other", "item"]).files = .ok feed ∧
        (feed (worldAfter ["item", "other", "item"])).drain =
          ([.ok ⟨"item", "a", ⟨1, 0⟩, .null⟩], worldAfter ["item", "other", "item"]) := by
  have hitem : '/' ∉ "item".toList := by decide
  have hother : '/' ∉ "other".toList := by decide
  have hfirst : bareArchive.store "item" "a" .null bareWorld =
      (.ok ⟨"item", "a", ⟨0, 0⟩, .null⟩, worldAfter ["item"]) := Prod.ext rfl rfl
  have hsecond : bareArchive.store "other" "a" .null (worldAfter ["item"]) =
      (.ok ⟨"other", "a", ⟨1, 0⟩, .null⟩, worldAfter ["item", "other"]) := Prod.ext rfl rfl
  have hthird : bareArchive.store "item" "a" .null (worldAfter ["item", "other"]) =
      (.ok ⟨"item", "a", ⟨1, 0⟩, .null⟩, worldAfter ["item", "other", "item"]) := Prod.ext rfl rfl
  have hstart : History ⟨"arch"⟩ bareWorld [] bareWorld := .start
  have hhistory := ((hstart.stored bareArchive_opened hitem storable_null hfirst).stored
    bareArchive_opened hother storable_null hsecond).stored bareArchive_opened hitem storable_null
    hthird
  obtain ⟨hopens, hdrains⟩ :=
    responses_of_history bareWorld_startsEmpty bareWorld_shows hhistory bareArchive_opened hitem
      (some ⟨0, 0⟩)
  obtain ⟨feed, hfeed⟩ := hopens ⟨by decide, by decide, by decide, rfl⟩
  exact ⟨bareWorld_startsEmpty, bareWorld_shows, bareArchive_opened, hitem, hhistory, feed, hfeed,
    hdrains feed hfeed⟩

/-- What is no name of a file has no log of its own: with a NUL in it there is an error in place of
    an empty stream, and with a slash in it it may be another way to the file of a category. -/
theorem no_log_of_other_names :
    StartsEmpty ⟨"arch"⟩ bareWorld.files ∧ (∀ n, (bareWorld.clock.shown n).Shows) ∧
      Opened ⟨"arch"⟩ bareArchive ∧
      (History ⟨"arch"⟩ bareWorld [] bareWorld ∧ '/' ∉ "a\x00b".toList ∧
        ¬ ∃ feed : Feed (Env Unit) (Except ArchiveError Response),
          bareArchive.responses "a\x00b" none bareWorld.files = .ok feed ∧
            (feed bareWorld).drain = ([], bareWorld)) ∧
      History ⟨"arch"⟩ bareWorld [⟨"item", "a", ⟨0, 0⟩, .null⟩] (worldAfter ["item"]) ∧
      ∃ feed : Feed (Env Unit) (Except ArchiveError Response),
        bareArchive.responses "./item" none (worldAfter ["item"]).files = .ok feed ∧
          (feed (worldAfter ["item"])).drain =
            ([.ok ⟨"item", "a", ⟨0, 0⟩, .null⟩], worldAfter ["item"]) := by
  refine ⟨bareWorld_startsEmpty, bareWorld_shows, bareArchive_opened, ⟨.start, by decide, ?_⟩,
    ?_, ?_⟩
  · rintro ⟨feed, hfeed, -⟩
    have herror :
        (bareArchive.responses (β := Unit) "a\x00b" none bareWorld.files).toBool = false := rfl
    rw [hfeed] at herror
    cases herror
  · have hstore : bareArchive.store "item" "a" .null bareWorld =
        (.ok ⟨"item", "a", ⟨0, 0⟩, .null⟩, worldAfter ["item"]) := Prod.ext rfl rfl
    exact History.start.stored bareArchive_opened (by decide) storable_null hstore
  · have hfound : bareArchive.found "./item" (worldAfter ["item"]).files =
        .ok (.ok ([⟨"item", "a", ⟨0, 0⟩, .null⟩].flatMap Response.line)) := rfl
    have hback : ∀ r ∈ [(⟨"item", "a", ⟨0, 0⟩, .null⟩ : Response)], r.ReadsBack := by
      intro r hr
      rw [List.mem_singleton.mp hr]
      exact ⟨bareWorld_shows 0, storable_null.parsed.readsBack storable_null.real, Nat.zero_le _⟩
    exact responses_of_holds (.file hfound) hback rfl none

end Archive

end Harvest
