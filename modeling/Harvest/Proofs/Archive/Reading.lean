/-
  Harvest.Proofs.Archive.Reading

  Reading an archive back. A response that was stored is read back from its line
  (`readLine_line`), so that a file of such lines gives the responses in the order in which they
  were stored (`readLines_lines`). The stream of the responses only looks at the file: it gives
  them as long as the file stays what it is, and leaves the world alone (`unfold_reads`,
  `responses_of_file`).
-/
import Harvest.Archive.Replay
import Harvest.Proofs.Archive.Store
import Harvest.Proofs.Backend.Stream
import Harvest.Proofs.Json.Documents
import Harvest.Proofs.Json.OneLine

namespace Harvest

/-! ## Streams that only look -/

/-- A stream gives a list and leaves the world alone, as long as the world satisfies `C` whenever
    it is drawn from. -/
inductive Draw.Reads {σ α : Type} (C : σ → Prop) : σ → Draw σ α → List α → Prop where
  | stop {s : σ} : Reads C s (.stop s) []
  | item {s : σ} {a : α} {rest : σ → Draw σ α} {as : List α}
      (h : ∀ s, C s → Reads C s (rest s) as) : Reads C s (.item a s rest) (a :: as)

namespace Draw.Reads

variable {σ α γ : Type} {C : σ → Prop} {s : σ} {d : Draw σ α} {as : List α}

/-- Drawn one directly after the other, the values are those of the list. -/
theorem drain (h : d.Reads C s as) (hs : C s) : d.drain = (as, s) := by
  induction h with
  | stop => rfl
  | item h ih =>
    have hrest := ih _ hs hs
    rw [drain_item, hrest]

/-- Leaving values out as they are drawn leaves them out of the list. -/
theorem filterMap (h : d.Reads C s as) (hs : C s) (f : α → Option γ) :
    (d.filterMap f).Reads C s (as.filterMap f) := by
  induction h with
  | stop => exact .stop
  | @item s a rest as h ih =>
    unfold Draw.filterMap
    cases ha : f a with
    | none =>
      rw [List.filterMap_cons_none ha]
      exact ih s hs hs
    | some b =>
      rw [List.filterMap_cons_some ha]
      exact .item fun t ht => ih t ht ht

end Draw.Reads

/-! ## The line of a response -/

/-- A response that can be read from its line, unless it nests too deep. -/
structure Response.Readable (r : Response) : Prop where
  shows : r.archivedAt.Shows
  payload : r.payload.Readable

/-- The response with the numbers that the texts of its numbers are read as. -/
def Response.reread (r : Response) : Response := { r with payload := r.payload.reread }

/-- A response that is read back from its line. Its payload is one level down, in an object. -/
structure Response.ReadsBack (r : Response) : Prop where
  shows : r.archivedAt.Shows
  payload : r.payload.ReadsBack
  depth : r.payload.depth ≤ 126

theorem Response.ReadsBack.readable {r : Response} (h : r.ReadsBack) : r.Readable :=
  ⟨h.shows, h.payload.readable⟩

theorem Response.ReadsBack.reread {r : Response} (h : r.ReadsBack) : r.reread = r := by
  rw [Response.reread, h.payload.reread]

namespace Archive

open Json

/-- The fields of a response in their order. -/
def fieldsOf (r : Response) : Fields :=
  [("category", .string r.category), ("origin", .string r.origin),
    ("archived_at", .string r.archivedAt.text), ("payload", r.payload)]

/-- A response is read from its text. Its payload is one level down. -/
theorem reads_response {r : Response} (h : r.Readable) (hdepth : r.payload.depth ≤ 126) :
    Response.shape.Reads nestingLimit r.toJson r.reread := by
  have hwritten : Response.layout.Written 126 (fieldsOf r)
      (r.category, r.origin, r.archivedAt, r.payload.reread, ()) := by
    refine .field (Shape.reads_text r.category) (.field (Shape.reads_text r.origin) ?_)
    exact .field (Shape.reads_date h.shows) (.field (Shape.reads_any hdepth h.payload) .done)
  have hnames : Response.layout.names.Nodup := by decide
  exact (Shape.reads_record hnames hwritten "ArchivedResponse").map _

/-- A response is read from its text, blanks behind it included. -/
theorem ofChars_response {r : Response} (h : r.Readable) (hdepth : r.payload.depth ≤ 126) :
    Response.shape.ofChars (r.toJson.chars ++ ['\n']) = .ok r.reread :=
  (reads_response h hdepth).ofChars (.cons (by decide) []) rfl

theorem decode_line (r : Response) :
    Utf8.decode r.line = .ok (r.toJson.chars ++ ['\n']) := by
  have hline : r.line = Utf8.encode (r.toJson.chars ++ ['\n']) := by
    rw [Utf8.encode_append]
    rfl
  rw [hline, Utf8.decode_encode]

/-- What the line of a response gives is what its text is read as. -/
theorem readLine_response (r : Response) (after : Option Calendar.Instant) :
    readLine after r.line =
      match Response.shape.ofChars (r.toJson.chars ++ ['\n']) with
      | .error e => .refused (.serialization e.message)
      | .ok r => if isLater after r then .response r else .nothing := by
  have hended : isEnded r.line = true := isEnded_concat _
  have hblank : Text.isBlankText (r.toJson.chars ++ ['\n']) = false := rfl
  unfold readLine
  rw [decode_line]
  dsimp only
  rw [hended, hblank]
  rfl

/-- A response is read back from its line. -/
theorem readLine_line {r : Response} (h : r.ReadsBack) (after : Option Calendar.Instant) :
    readLine after r.line = if isLater after r = true then .response r else .nothing := by
  rw [readLine_response, ofChars_response h.readable h.depth, h.reread]

/-- The lines of a file of responses are those of the responses. -/
theorem linesOf_responses (rs : List Response) :
    linesOf (rs.flatMap Response.line) = rs.map Response.line := by
  induction rs with
  | nil => rfl
  | cons r rs ih =>
    -- The text has no newline of its own, so that the line ends where the response does.
    have hbody := newline_notMem_bytes r.toJson
    rw [List.flatMap_cons, List.map_cons, ← ih]
    unfold Response.line
    rw [List.append_assoc, List.singleton_append]
    exact linesOf_ended hbody _

/-- A file of responses gives those that are asked for, in order. -/
theorem readLines_lines {rs : List Response} (h : ∀ r ∈ rs, r.ReadsBack)
    (after : Option Calendar.Instant) :
    readLines after (linesOf (rs.flatMap Response.line)) =
      (rs.filter (isLater after)).map .ok := by
  rw [linesOf_responses]
  induction rs with
  | nil => rfl
  | cons r rs ih =>
    have hrest := ih fun s hs => h s (List.mem_cons_of_mem r hs)
    rw [List.map_cons, readLines, readLine_line (h r List.mem_cons_self)]
    by_cases hlater : isLater after r = true
    · rw [if_pos hlater, List.filter_cons_of_pos hlater, List.map_cons]
      exact congrArg (Except.ok r :: ·) hrest
    · rw [if_neg hlater, List.filter_cons_of_neg hlater]
      exact hrest

/-- Asking for the responses behind an instant makes no difference to the other lines. -/
theorem readLine_after (after : Option Calendar.Instant) (line : Bytes) :
    readLine after line =
      match readLine none line with
      | .response r => if isLater after r then .response r else .nothing
      | reply => reply := by
  unfold readLine
  cases Utf8.decode line with
  | error f => rfl
  | ok cs =>
    dsimp only
    split
    · rfl
    · split
      · rfl
      · cases Response.shape.ofChars cs with
        | error e => rfl
        | ok r => rfl

section

variable {after : Option Calendar.Instant} {line : Bytes}

theorem readLines_of_unfinished (h : readLine after line = .unfinished) (ls : List Bytes) :
    readLines after (line :: ls) = [] := by
  rw [readLines, h]

theorem readLines_of_nothing (h : readLine after line = .nothing) (ls : List Bytes) :
    readLines after (line :: ls) = readLines after ls := by
  rw [readLines, h]

theorem readLines_of_refused {e : ArchiveError} (h : readLine after line = .refused e)
    (ls : List Bytes) : readLines after (line :: ls) = [.error e] := by
  rw [readLines, h]

theorem readLines_of_response {r : Response} (h : readLine after line = .response r)
    (ls : List Bytes) : readLines after (line :: ls) = .ok r :: readLines after ls := by
  rw [readLines, h]

end

/-- Whether a reply is one that is asked for; an error always is. -/
def isAsked (after : Option Calendar.Instant) : Except ArchiveError Response → Bool
  | .error _ => true
  | .ok r => isLater after r

/-- Asking for the responses behind an instant leaves the others out, and keeps the error. -/
theorem readLines_after (after : Option Calendar.Instant) (lines : List Bytes) :
    readLines after lines = (readLines none lines).filter (isAsked after) := by
  induction lines with
  | nil => rfl
  | cons line lines ih =>
    have hreply := readLine_after after line
    cases hline : readLine none line with
    | unfinished =>
      rw [hline] at hreply
      rw [readLines_of_unfinished hline, readLines_of_unfinished hreply, List.filter_nil]
    | nothing =>
      rw [hline] at hreply
      rw [readLines_of_nothing hline, readLines_of_nothing hreply, ih]
    | refused e =>
      rw [hline] at hreply
      rw [readLines_of_refused hline, readLines_of_refused hreply]
      rfl
    | response r =>
      rw [hline] at hreply
      rw [readLines_of_response hline, List.filter_cons]
      by_cases hlater : isLater after r = true
      · rw [if_pos (show isAsked after (.ok r) = true from hlater),
          readLines_of_response (hreply.trans (if_pos hlater)), ih]
      · rw [if_neg (show ¬ isAsked after (.ok r) = true from hlater),
          readLines_of_nothing (hreply.trans (if_neg hlater)), ih]

/-- A file that can be read to its end gives those of its responses that are asked for. -/
theorem readLines_later {lines : List Bytes} {rs : List Response}
    (h : readLines none lines = rs.map .ok) (after : Option Calendar.Instant) :
    readLines after lines = (rs.filter (isLater after)).map .ok := by
  rw [readLines_after, h, List.filter_map]
  rfl

/-! ## The stream of the responses -/

/-- Looking for the next response finds the first one, and the rest of the lines give the
    others. -/
theorem readLines_of_next? (after : Option Calendar.Instant) (lines : List Bytes) :
    match next? after lines with
    | none => readLines after lines = []
    | some (.error e) => readLines after lines = [.error e]
    | some (.ok (r, rest)) =>
      (∃ before, before ≠ [] ∧ lines = before ++ rest) ∧
        readLines after lines = .ok r :: readLines after rest := by
  induction lines with
  | nil => rfl
  | cons l ls ih =>
    unfold next?
    cases hline : readLine after l with
    | unfinished => exact readLines_of_unfinished hline ls
    | refused e => exact readLines_of_refused hline ls
    | response r => exact ⟨⟨[l], List.cons_ne_nil l [], rfl⟩, readLines_of_response hline ls⟩
    | nothing =>
      have hskip := readLines_of_nothing hline ls
      dsimp only
      generalize next? after ls = found at ih
      match found with
      | none => exact hskip.trans ih
      | some (.error e) => exact hskip.trans ih
      | some (.ok (r, rest)) =>
        obtain ⟨⟨before, -, hlines⟩, hresponses⟩ := ih
        refine ⟨⟨l :: before, List.cons_ne_nil l before, ?_⟩, hskip.trans hresponses⟩
        rw [hlines, List.cons_append]

/-- Reading on from a position gives the responses of the lines that are left. -/
theorem unfold_reads {β : Type} (after : Option Calendar.Instant) {place : Location}
    {content : Bytes} (fuel position : Nat)
    (hfuel : (linesOf (content.drop position)).length < fuel) (env : Env β)
    (henv : env.files.content place = .ok content) :
    (Feed.unfold (advance after) fuel ⟨place, position⟩ env).Reads
      (fun env => env.files.content place = .ok content) env
      (readLines after (linesOf (content.drop position))) := by
  -- A step uses up at least one line, so that the fuel lasts for all of them.
  induction fuel generalizing position env with
  | zero => cases hfuel
  | succ fuel ih =>
    have hnext := readLines_of_next? after (linesOf (content.drop position))
    unfold Feed.unfold advance
    rw [Reading.lines_of_content henv]
    dsimp only
    generalize next? after (linesOf (content.drop position)) = found at hnext
    cases found with
    | none =>
      rw [show readLines after _ = [] from hnext]
      exact .stop
    | some reply =>
      cases reply with
      | error e =>
        rw [show readLines after _ = [.error e] from hnext]
        exact .item fun _ _ => .stop
      | ok hit =>
        obtain ⟨r, rest⟩ := hit
        obtain ⟨⟨before, hbefore, hsplit⟩, hresponses⟩ := hnext
        obtain ⟨further, hmoved, hleft, hfewer⟩ := Reading.lines_upTo place hsplit
        have hshorter : (linesOf (content.drop further)).length < fuel := by
          have hless := hfewer hbefore
          rw [hleft]
          omega
        rw [hresponses]
        refine .item ?_
        intro env' henv'
        have hrest := ih further hshorter env' henv'
        rw [hleft] at hrest
        rw [hmoved]
        exact hrest

/-- A category that has a file gives the responses of the file. -/
theorem responses_of_file {β : Type} {a : Archive} {category : String} {place : Location}
    {content : Bytes} {env : Env β}
    (hplace : env.files.locate (a.categoryPath category) = .ok place)
    (hcontent : env.files.content place = .ok content) (after : Option Calendar.Instant) :
    ∃ feed : Feed (Env β) (Except ArchiveError Response),
      a.responses category after env.files = .ok feed ∧
      (feed env).Reads (fun env => env.files.content place = .ok content) env
        (readLines after (linesOf content)) := by
  have hreads := unfold_reads after (env.files.lineBound place) 0
    (length_lines_lt_lineBound hcontent) env hcontent
  rw [List.drop_zero] at hreads
  refine ⟨_, ?_, hreads⟩
  unfold responses
  rw [hplace]

/-- A category that holds the lines of responses gives what reading these lines gives, and reading
    them leaves the world alone. It does not matter what else is in the files. -/
theorem responses_of_lines {β : Type} {a : Archive} {category : String} {files : FileTree}
    {rs : List Response} (h : a.Holds category files (rs.flatMap Response.line)) {later : Env β}
    (hsame : a.found category later.files = a.found category files)
    (after : Option Calendar.Instant) :
    ∃ feed : Feed (Env β) (Except ArchiveError Response),
      a.responses category after later.files = .ok feed ∧
      (feed later).drain = (readLines after (rs.map Response.line), later) := by
  generalize hbytes : rs.flatMap Response.line = bytes at h
  cases h with
  | none hlacks =>
    -- Nothing is stored, as every response would have a line.
    have hnone : rs = [] := by
      cases rs with
      | nil => rfl
      | cons r rs =>
        rw [List.flatMap_cons, List.append_eq_nil_iff] at hbytes
        exact absurd hbytes.1 (List.concat_ne_nil _ _)
    have hmissing : later.files.locate (a.categoryPath category) = .error .notFound := by
      unfold found at hsame
      rw [hlacks.notFound] at hsame
      cases hlocate : later.files.locate (a.categoryPath category) with
      | error f =>
        rw [hlocate] at hsame
        cases hsame
        rfl
      | ok place =>
        rw [hlocate] at hsame
        cases hsame
    refine ⟨Feed.empty, ?_, ?_⟩
    · unfold responses
      rw [hmissing]
    · rw [hnone]
      rfl
  | file hfound =>
    obtain ⟨place, hplace, hcontent⟩ := locate_of_found (hsame.trans hfound)
    obtain ⟨feed, hfeed, hreads⟩ := responses_of_file hplace hcontent after
    refine ⟨feed, hfeed, ?_⟩
    rw [hreads.drain hcontent, ← hbytes, linesOf_responses]

/-- Responses that are read back are given in order, if they are asked for. -/
theorem responses_of_holds {β : Type} {a : Archive} {category : String} {files : FileTree}
    {rs : List Response} (h : a.Holds category files (rs.flatMap Response.line))
    (hback : ∀ r ∈ rs, r.ReadsBack) {later : Env β}
    (hsame : a.found category later.files = a.found category files)
    (after : Option Calendar.Instant) :
    ∃ feed : Feed (Env β) (Except ArchiveError Response),
      a.responses category after later.files = .ok feed ∧
      (feed later).drain = ((rs.filter (isLater after)).map .ok, later) := by
  obtain ⟨feed, hfeed, hdrain⟩ := responses_of_lines h hsame after
  refine ⟨feed, hfeed, ?_⟩
  rw [hdrain, ← linesOf_responses, readLines_lines hback]

end Archive

end Harvest
