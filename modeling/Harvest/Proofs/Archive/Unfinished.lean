/-
  Harvest.Proofs.Archive.Unfinished

  A line that is still being written. Behind the complete responses of a category, a reader meets
  nothing of it as long as it is cut short between two characters, and the error of an unfinished
  character if it is cut short inside one (`responses_of_torn`): the octets are read as text before
  it is looked at whether the line is ended. The complete responses are given all the same, in a
  replay as well.
-/
import Harvest.Proofs.Backend.Replaying
import Harvest.Proofs.Files.Cutting

namespace Harvest

namespace Archive

/-! ## Lines behind others -/

/-- What a stream gives, and behind it what another one does, unless the first ended with an
    error. -/
def followedBy : List (Except ArchiveError Response) → List (Except ArchiveError Response) →
    List (Except ArchiveError Response)
  | [], later => later
  | .error e :: _, _ => [.error e]
  | .ok r :: rest, later => .ok r :: followedBy rest later

theorem followedBy_responses (rs : List Response) (later : List (Except ArchiveError Response)) :
    followedBy (rs.map .ok) later = rs.map .ok ++ later := by
  induction rs with
  | nil => rfl
  | cons r rs ih => simp [followedBy, ih]

theorem readLine_ne_unfinished {after : Option Calendar.Instant} {line : Bytes}
    (h : isEnded line = true) : readLine after line ≠ .unfinished := by
  intro hline
  unfold readLine at hline
  split at hline
  · cases hline
  · rw [h] at hline
    simp only [Bool.not_true, Bool.false_eq_true, if_false] at hline
    split at hline
    · cases hline
    · split at hline
      · cases hline
      · split at hline <;> cases hline

/-- Lines that are ended are read in front of those behind them. -/
theorem readLines_append {after : Option Calendar.Instant} {front : List Bytes}
    (h : ∀ line ∈ front, isEnded line = true) (back : List Bytes) :
    readLines after (front ++ back) =
      followedBy (readLines after front) (readLines after back) := by
  induction front with
  | nil => rfl
  | cons line front ih =>
    have hrest := ih fun l hl => h l (List.mem_cons_of_mem line hl)
    rw [List.cons_append]
    cases hline : readLine after line with
    | unfinished => exact absurd hline (readLine_ne_unfinished (h line List.mem_cons_self))
    | nothing => rw [readLines_of_nothing hline, readLines_of_nothing hline, hrest]
    | refused e =>
      rw [readLines_of_refused hline, readLines_of_refused hline]
      rfl
    | response r =>
      rw [readLines_of_response hline, readLines_of_response hline, hrest]
      rfl

/-! ## A line that is not ended -/

/-- What a reader meets of a response whose line is not yet written to its end. -/
inductive Met (next : Response) (torn : Bytes) : List (Except ArchiveError Response) → Prop where
  /-- The line is cut short between two characters, and is not seen. -/
  | unseen {front back : List Char} (htext : next.toJson.chars = front ++ back)
      (htorn : torn = Utf8.encode front) : Met next torn []
  /-- The line is cut short inside a character, which is found to be incomplete. -/
  | incomplete {front back : List Char} {c : Char} {part : Bytes}
      (htext : next.toJson.chars = front ++ c :: back) (htorn : torn = Utf8.encode front ++ part)
      (hpart : part <+: String.utf8EncodeChar c) (hsome : part ≠ [])
      (hcut : part ≠ String.utf8EncodeChar c) :
      Met next torn
        [.error (.io (Utf8.Fault.incomplete (Utf8.encode front).length).message)]

/-- What a line has before it is ended is a part of the text of its response. -/
theorem prefix_bytes_of_torn {next : Response} {torn : Bytes} (htorn : torn <+: next.line)
    (hcut : torn ≠ next.line) : torn <+: next.toJson.bytes := by
  rcases List.prefix_concat_iff.mp htorn with hwhole | hpart
  · exact absurd hwhole hcut
  · exact hpart

theorem newline_notMem_torn {next : Response} {torn : Bytes} (htorn : torn <+: next.line)
    (hcut : torn ≠ next.line) : newline ∉ torn := fun hmem =>
  Json.newline_notMem_bytes next.toJson ((prefix_bytes_of_torn htorn hcut).subset hmem)

/-- A line that is still being written is met as far as its last character is. -/
theorem readLines_torn {next : Response} {torn : Bytes} (htorn : torn <+: next.line)
    (hcut : torn ≠ next.line) (after : Option Calendar.Instant) :
    Met next torn (readLines after (linesOf torn)) := by
  have hnewline := newline_notMem_torn htorn hcut
  have hended := isEnded_of_newline_notMem hnewline
  by_cases hnone : torn = []
  · rw [hnone]
    exact .unseen (List.nil_append _).symm rfl
  rw [linesOf_of_newline_notMem hnewline hnone]
  have htext := Utf8.cut_of_prefix (prefix_bytes_of_torn htorn hcut)
  cases htext with
  | @between front back htext =>
    have hline : readLine after (Utf8.encode front) = .unfinished := by
      unfold readLine
      rw [Utf8.decode_encode]
      dsimp only
      rw [hended]
      rfl
    rw [readLines_of_unfinished hline]
    exact .unseen htext rfl
  | @inside front back c part htext hpart hsome hpartial =>
    have hline : readLine after (Utf8.encode front ++ part) =
        .refused (.io (Utf8.Fault.incomplete (Utf8.encode front).length).message) := by
      unfold readLine
      rw [Utf8.decode_inside hpart hsome hpartial]
    rw [readLines_of_refused hline]
    exact .incomplete htext rfl hpart hsome hpartial

/-- The lines of responses are ended. -/
theorem isEnded_responses (rs : List Response) :
    (rs.flatMap Response.line = [] ∨ isEnded (rs.flatMap Response.line) = true) ∧
      ∀ line ∈ rs.map Response.line, isEnded line = true := by
  constructor
  · rcases List.eq_nil_or_concat rs with rfl | ⟨rs, r, rfl⟩
    · exact .inl rfl
    · right
      rw [List.concat_eq_append, List.flatMap_append, List.flatMap_singleton]
      unfold Response.line
      rw [← List.append_assoc]
      exact isEnded_concat _
  · intro line hline
    obtain ⟨r, -, rfl⟩ := List.mem_map.mp hline
    exact isEnded_concat _

/-- Behind complete lines, a line that is still being written is not seen if it is cut short
    between two characters, and otherwise ends the stream with the error of the character that it
    is cut short in. The complete lines are read as if it was not there, and so they are in a
    replay. -/
theorem responses_of_torn {β : Type} {a : Archive} {category : String} {env : Env β}
    {place : Location} {rs : List Response} {next : Response} {torn : Bytes}
    (hplace : env.files.locate (a.categoryPath category) = .ok place)
    (hcontent : env.files.content place = .ok (rs.flatMap Response.line ++ torn))
    (htorn : torn <+: next.line) (hcut : torn ≠ next.line) (after : Option Calendar.Instant) :
    ∃ met, Met next torn met ∧
      ((∀ r ∈ rs, r.ReadsBack) → followedBy (readLines after (rs.map Response.line)) met =
        (rs.filter (isLater after)).map .ok ++ met) ∧
      (∃ feed : Feed (Env β) (Except ArchiveError Response),
        a.responses category after env.files = .ok feed ∧
        (feed env).drain = (followedBy (readLines after (rs.map Response.line)) met, env)) ∧
      ∀ (args : Fields) (origin : Option String) (filters : Filters),
        category = recordCategory → Lines.AsksFor args origin →
        Filters.ofArgs args = .ok filters →
        ∃ items : Items β,
          Lines.replay category args a after env = .ok items ∧
          (items env).drain =
            ((followedBy (readLines after (rs.map Response.line)) met).filterMap
              (Lines.replayed origin filters), env) := by
  obtain ⟨hfront, hended⟩ := isEnded_responses rs
  have hlines : readLines after (linesOf (rs.flatMap Response.line ++ torn)) =
      followedBy (readLines after (rs.map Response.line)) (readLines after (linesOf torn)) := by
    rw [linesOf_append hfront, linesOf_responses, readLines_append hended]
  obtain ⟨feed, hfeed, hreads⟩ := responses_of_file hplace hcontent after
  rw [hlines] at hreads
  refine ⟨_, readLines_torn htorn hcut after, ?_, ?_, ?_⟩
  · intro hback
    rw [← linesOf_responses, readLines_lines hback, followedBy_responses]
  · exact ⟨feed, hfeed, hreads.drain hcontent⟩
  · rintro args origin filters rfl horigin hfilters
    refine ⟨_, Lines.replay_of_asked horigin hfilters hfeed, ?_⟩
    exact (hreads.filterMap hcontent _).drain hcontent

/-- The files of an archive that holds a file for one category. -/
def filesWith (content : Bytes) : FileTree :=
  ⟨[(["arch"], .directory), (["arch", "item.jsonl"], .file content)], []⟩

theorem locate_filesWith (content : Bytes) :
    (filesWith content).locate (categoryPath ⟨⟨"arch"⟩⟩ recordCategory) =
      .ok ["arch", "item.jsonl"] := rfl

theorem content_filesWith (content : Bytes) :
    (filesWith content).content ["arch", "item.jsonl"] = .ok content := rfl

/-- A response without a payload to speak of. -/
def plainResponse : Response := ⟨recordCategory, "a.jsonl", ⟨0, 0⟩, .null⟩

theorem plainResponse_readsBack : plainResponse.ReadsBack where
  shows := ⟨by decide, .inl (by decide)⟩
  payload := ⟨(fun _ h => nomatch h), (fun _ h => nomatch h)⟩
  depth := Nat.zero_le _

/-- A response whose text has a character of two octets. -/
def accentedResponse : Response := ⟨recordCategory, "é.jsonl", ⟨0, 0⟩, .null⟩

/-- The line of the response, cut short between the two octets. -/
def tornLine : Bytes := accentedResponse.line.take 30

/-- The response in front of a line that is cut short inside a character is given, and then an
    error. -/
theorem incomplete_character_met :
    let a : Archive := ⟨⟨"arch"⟩⟩
    let env : Env Unit :=
      ⟨filesWith ([plainResponse].flatMap Response.line ++ tornLine), ⟨fun _ => ⟨0, 0⟩, 0⟩, ()⟩
    env.files.locate (a.categoryPath recordCategory) = .ok ["arch", "item.jsonl"] ∧
      env.files.content ["arch", "item.jsonl"] =
        .ok ([plainResponse].flatMap Response.line ++ tornLine) ∧
      tornLine <+: accentedResponse.line ∧ tornLine ≠ accentedResponse.line ∧
      ∃ (feed : Feed (Env Unit) (Except ArchiveError Response)) (e : ArchiveError),
        a.responses recordCategory none env.files = .ok feed ∧
        (feed env).drain = ([.ok plainResponse, .error e], env) := by
  intro a env
  have htorn : tornLine <+: accentedResponse.line := List.take_prefix _ _
  have hcut : tornLine ≠ accentedResponse.line := by decide +kernel
  have hback : ∀ r ∈ [plainResponse], r.ReadsBack := by
    intro r hr
    rw [List.mem_singleton.mp hr]
    exact plainResponse_readsBack
  have hrefused : ∀ front, tornLine ≠ Utf8.encode front := by
    intro front h
    have herror : (Utf8.decode tornLine).toBool = false := by decide +kernel
    rw [h, Utf8.decode_encode] at herror
    cases herror
  have hplace : env.files.locate (a.categoryPath recordCategory) =
      .ok ["arch", "item.jsonl"] := locate_filesWith _
  have hcontent : env.files.content ["arch", "item.jsonl"] =
      .ok ([plainResponse].flatMap Response.line ++ tornLine) := content_filesWith _
  refine ⟨hplace, hcontent, htorn, hcut, ?_⟩
  obtain ⟨met, hmet, hcomplete, ⟨feed, hfeed, hdrain⟩, -⟩ :=
    responses_of_torn hplace hcontent htorn hcut none
  rw [hcomplete hback] at hdrain
  cases hmet with
  | unseen htext hfront => exact absurd hfront (hrefused _)
  | incomplete => exact ⟨feed, _, hfeed, hdrain⟩

end Archive

end Harvest
