/-
  Harvest.Proofs.Archive.Nesting

  Responses that nest too deep for their lines. A payload stands one level below the response, so
  that one of 127 levels, which a text of its own may have, is refused when the line is read
  (`readLine_tooDeep`). Such a line ends the stream: what a file of responses gives are those in
  front of the first one that is too deep, and then the error (`readLines_replies`). There is no
  other cause for an error (`Replies.error_iff`).
-/
import Harvest.Proofs.Archive.Reading
import Harvest.Proofs.Json.TooDeep

namespace Harvest

namespace Json.Layout

variable {β γ δ : Type} {levels : Nat} {shape : Shape β} {absent : Absent β} {rest : Layout γ δ}

/-- The value of a field of a known name is refused. -/
theorem readInto_self_error {known : String} {draft : δ} {cs : List Char} {f : Fault}
    (h : shape.read levels cs = .error f) :
    readInto levels known (.field known shape absent rest) (none, draft) (':' :: cs) =
      .error f := by
  rw [readInto, if_pos rfl, if_neg (by simp)]
  refine (bind_of_ok (readColon_cons cs) _).trans ?_
  exact bind_of_error h _

theorem readInto_other_error {known name : String} {b? : Option β} {draft : δ} {cs : List Char}
    {f : Fault} (hname : ¬ name = known)
    (h : rest.readInto levels name draft cs = .error f) :
    readInto levels name (.field known shape absent rest) (b?, draft) cs = .error f := by
  rw [readInto, if_neg hname]
  exact bind_of_error h _

end Json.Layout

namespace Archive

open Json

/-! ## The line of a response -/

/-- Each field in front of the payload is passed over by those in front of it, and read by its
    own. -/
theorem readInto_front {r : Response} (h : r.archivedAt.Shows) {rest : List Char}
    (hrest : EndsNumber rest) :
    Response.layout.readInto 126 "category" Response.layout.blank
        (':' :: (stringChars r.category ++ rest)) =
      .ok ((some r.category, none, none, none, ()), rest) ∧
    Response.layout.readInto 126 "origin" (some r.category, none, none, none, ())
        (':' :: (stringChars r.origin ++ rest)) =
      .ok ((some r.category, some r.origin, none, none, ()), rest) ∧
    Response.layout.readInto 126 "archived_at" (some r.category, some r.origin, none, none, ())
        (':' :: (stringChars r.archivedAt.text ++ rest)) =
      .ok ((some r.category, some r.origin, some r.archivedAt, none, ()), rest) := by
  refine ⟨?_, ?_, ?_⟩
  · exact Layout.readInto_self (Shape.reads_text r.category rest hrest)
  · refine Layout.readInto_other (by decide) ?_
    exact Layout.readInto_self (Shape.reads_text r.origin rest hrest)
  · refine Layout.readInto_other (by decide) (Layout.readInto_other (by decide) ?_)
    exact Layout.readInto_self (Shape.reads_date h rest hrest)

/-- The text of a response is the object of its fields, with the end of the line as a blank
    behind it. -/
theorem chars_response (r : Response) :
    r.toJson.chars ++ ['\n'] = '\x7b' :: (fieldChars (fieldsOf r) ++ '\x7d' :: ['\n']) :=
  chars_object_append (fieldsOf r) ['\n']

/-- The payload is the field at which a reader gives up. -/
theorem halts_response {r : Response} (h : r.Readable) (hdepth : 126 < r.payload.depth) :
    Halts (fun name => Response.layout.readInto 126 name) Response.layout.blank (fieldsOf r) := by
  -- The three fields in front of the payload are read, each in its turn.
  refine .later (fun rest hrest => (readInto_front h.shows hrest).1) ?_
  refine .later (fun rest hrest => (readInto_front h.shows hrest).2.1) ?_
  refine .later (fun rest hrest => (readInto_front h.shows hrest).2.2) ?_
  refine .here ?_
  intro rest hrest
  have hpayload : GivesUp (Shape.any.read 126 (r.payload.chars ++ rest)) :=
    readValue_tooDeep hdepth h.payload rest hrest
  obtain ⟨left, hleft⟩ := hpayload
  refine ⟨left, ?_⟩
  refine Layout.readInto_other_error (by decide) (Layout.readInto_other_error (by decide)
    (Layout.readInto_other_error (by decide) ?_))
  exact Layout.readInto_self_error hleft

theorem ofChars_tooDeep {r : Response} (h : r.Readable) (hdepth : 126 < r.payload.depth) :
    ∃ refusal, Response.shape.ofChars (r.toJson.chars ++ ['\n']) = .error refusal ∧
      refusal.cause = .tooDeep := by
  have hfuel := fields_fit (fieldsOf r) ('\x7d' :: ['\n'])
  obtain ⟨left, hfields⟩ := readFields_givesUp (halts_response h hdepth) hfuel ['\n']
  have hread : Response.shape.read nestingLimit (r.toJson.chars ++ ['\n']) =
      .error (.next .tooDeep left) := by
    have hobject : Response.layout.readObject nestingLimit
        ('\x7b' :: (fieldChars (fieldsOf r) ++ '\x7d' :: ['\n'])) =
        .error (.next .tooDeep left) := bind_of_error hfields _
    rw [chars_response]
    exact bind_of_error hobject _
  refine ⟨Fault.located (.next .tooDeep left) (r.toJson.chars ++ ['\n']), ?_, rfl⟩
  unfold Shape.ofChars readWhole
  rw [hread]

/-- A response that nests too deep is refused. -/
theorem readLine_tooDeep {r : Response} (h : r.Readable) (hdepth : 126 < r.payload.depth)
    (after : Option Calendar.Instant) :
    ∃ refusal : Refusal, refusal.cause = .tooDeep ∧
      readLine after r.line = .refused (.serialization refusal.message) := by
  obtain ⟨refusal, hrefusal, hcause⟩ := ofChars_tooDeep h hdepth
  refine ⟨refusal, hcause, ?_⟩
  rw [readLine_response, hrefusal]

/-- A response that does not is read. -/
theorem readLine_readable {r : Response} (h : r.Readable) (hdepth : r.payload.depth ≤ 126)
    (after : Option Calendar.Instant) :
    readLine after r.line = if isLater after r = true then .response r.reread else .nothing := by
  rw [readLine_response, ofChars_response h hdepth]
  rfl

/-! ## A file of responses -/

/-- The replies to reading several responses: each one in its turn, if it is asked for, and an
    error in place of the first one that nests too deep and of all behind it. -/
inductive Replies (after : Option Calendar.Instant) :
    List Response → List (Except ArchiveError Response) → Prop where
  | nil : Replies after [] []
  | response {r : Response} {rs : List Response} {replies : List (Except ArchiveError Response)}
      (hdepth : r.payload.depth ≤ 126) (hlater : isLater after r = true)
      (hrest : Replies after rs replies) : Replies after (r :: rs) (.ok r.reread :: replies)
  | earlier {r : Response} {rs : List Response} {replies : List (Except ArchiveError Response)}
      (hdepth : r.payload.depth ≤ 126) (hlater : isLater after r = false)
      (hrest : Replies after rs replies) : Replies after (r :: rs) replies
  | tooDeep {r : Response} {rs : List Response} {refusal : Refusal}
      (hdepth : 126 < r.payload.depth) (hcause : refusal.cause = .tooDeep) :
      Replies after (r :: rs) [.error (.serialization refusal.message)]

/-- There is an error among the replies just if a response nests too deep. -/
theorem Replies.error_iff {after : Option Calendar.Instant} {rs : List Response}
    {replies : List (Except ArchiveError Response)} (h : Replies after rs replies) :
    (∃ e, .error e ∈ replies) ↔ ∃ r ∈ rs, 126 < r.payload.depth := by
  induction h with
  | nil => simp
  | response hdepth hlater hrest ih =>
    simp [ih, Nat.not_lt.mpr hdepth]
  | earlier hdepth hlater hrest ih =>
    simp [ih, Nat.not_lt.mpr hdepth]
  | tooDeep hdepth hcause =>
    simp [hdepth]

/-- A file of responses gives the replies to them. -/
theorem readLines_replies {rs : List Response} (h : ∀ r ∈ rs, r.Readable)
    (after : Option Calendar.Instant) :
    Replies after rs (readLines after (rs.map Response.line)) := by
  induction rs with
  | nil => exact .nil
  | cons r rs ih =>
    have hr := h r List.mem_cons_self
    have hrest := ih fun s hs => h s (List.mem_cons_of_mem r hs)
    rw [List.map_cons]
    by_cases hdepth : r.payload.depth ≤ 126
    · have hline := readLine_readable hr hdepth after
      cases hlater : isLater after r with
      | true =>
        rw [hlater, if_pos rfl] at hline
        rw [readLines_of_response hline]
        exact .response hdepth hlater hrest
      | false =>
        rw [hlater, if_neg Bool.false_ne_true] at hline
        rw [readLines_of_nothing hline]
        exact .earlier hdepth hlater hrest
    · -- The stream ends here, so that nothing has to be known of the lines behind.
      have hdeep : 126 < r.payload.depth := Nat.lt_of_not_le hdepth
      obtain ⟨refusal, hcause, hline⟩ := readLine_tooDeep hr hdeep after
      rw [readLines_of_refused hline]
      exact .tooDeep hdeep hcause

end Archive

end Harvest
