/-
  Harvest.Proofs.Archive.Torn

  A line that was never written to its end. What is stored behind it goes to the same line, which
  cannot be read then, wherever the first response was cut short: its brackets are not closed at the
  end, or are closed too early (`run_torn`). So the complete responses are given, then the error of
  that line, and nothing of all that is stored from then on (`responses_behind_torn`).
-/
import Harvest.Proofs.Archive.Unfinished
import Harvest.Proofs.Json.Balanced

namespace Harvest.Archive

open Json Scan

/-! ## Two responses on a line -/

theorem layout_keeps : Response.layout.Keeps :=
  ⟨Shape.string_keeps _, Shape.string_keeps _, Shape.refine_keeps (Shape.string_keeps _) _,
    Shape.any_keeps, trivial⟩

/-- The outermost bracket of a response is closed at the end of its text. -/
theorem run_ofChars {cs : List Char} {r : Response}
    (h : Response.shape.ofChars ('\x7b' :: cs) = .ok r) : run (.outside 0) cs = .closed := by
  obtain ⟨rest, hread, hblank⟩ := of_readWhole_eq_ok h
  obtain ⟨⟨fields, behind⟩, hobject, hread⟩ := of_bind_eq_ok hread
  have hobject : Response.layout.readObject nestingLimit ('\x7b' :: cs) =
      .ok (fields, behind) := hobject
  cases hread
  exact (Layout.readObject_run layout_keeps hobject).trans (run_closed hblank)

/-- A response behind an open bracket does not close it, behind a string it is no part of a text,
    and behind the outermost bracket neither. -/
theorem run_torn (front : List Char) (r : Response) :
    run (.outside 0) (front ++ (r.toJson.chars ++ ['\n'])) ≠ .closed := by
  obtain ⟨rest, hrest⟩ : ∃ rest, r.toJson.chars = '\x7b' :: '"' :: 'c' :: rest := ⟨_, rfl⟩
  rw [run_append]
  cases run (.outside 0) front with
  | outside depth =>
    rw [run_chars]
    exact nofun
  -- The quote of the first name ends the string, and the name is taken for a word.
  | inside depth =>
    rw [hrest]
    show run .stuck _ ≠ _
    rw [run_stuck]
    exact nofun
  | escaped depth =>
    rw [hrest]
    show run .stuck _ ≠ _
    rw [run_stuck]
    exact nofun
  | closed =>
    rw [hrest]
    show run .stuck _ ≠ _
    rw [run_stuck]
    exact nofun
  | stuck =>
    rw [run_stuck]
    exact nofun

/-- A response cannot be read behind a part of another one. -/
theorem readLine_torn {next : Response} {torn : Bytes} (htorn : torn <+: next.toJson.bytes)
    (hsome : torn ≠ []) (r : Response) :
    ∃ e, ∀ after, readLine after (torn ++ r.line) = .refused e := by
  have hcut := Utf8.cut_of_prefix htorn
  cases hcut with
  | @between front back htext =>
    -- What is left of a response begins with its outermost bracket.
    obtain ⟨rest, hrest⟩ : ∃ rest, next.toJson.chars = '\x7b' :: rest := ⟨_, rfl⟩
    obtain ⟨front, rfl⟩ : ∃ front', front = '\x7b' :: front' := by
      cases front with
      | nil => exact absurd rfl hsome
      | cons c front =>
        rw [hrest, List.cons_append, List.cons.injEq] at htext
        exact ⟨front, by rw [htext.1]⟩
    have hdecode : Utf8.decode (Utf8.encode ('\x7b' :: front) ++ r.line) =
        .ok ('\x7b' :: (front ++ (r.toJson.chars ++ ['\n']))) := by
      have hline : r.line = Utf8.encode (r.toJson.chars ++ ['\n']) := by
        rw [Utf8.encode_append]
        rfl
      rw [hline, ← Utf8.encode_append, Utf8.decode_encode, List.cons_append]
    have hended : isEnded (Utf8.encode ('\x7b' :: front) ++ r.line) = true := by
      unfold Response.line
      rw [← List.append_assoc]
      exact isEnded_concat _
    cases hread : Response.shape.ofChars ('\x7b' :: (front ++ (r.toJson.chars ++ ['\n']))) with
    | ok r' => exact absurd (run_ofChars hread) (run_torn front r)
    | error e =>
      refine ⟨.serialization e.message, fun after => ?_⟩
      unfold readLine
      rw [hdecode]
      dsimp only
      rw [hended, hread]
      rfl
  | @inside front back c part htext hpart hcut hpartial =>
    -- The bracket of the response does not go on with the character.
    have hincomplete : Utf8.decode (Utf8.encode front ++ part) =
        .error (.incomplete (Utf8.encode front).length) :=
      Utf8.decode_inside hpart hcut hpartial
    obtain ⟨rest, hrest⟩ : ∃ rest, r.line = 0x7b :: rest := ⟨_, rfl⟩
    obtain ⟨f, hf⟩ := Utf8.decode_broken hincomplete (by decide : (0x7b : UInt8) < 0x80) rest
    refine ⟨.io f.message, fun after => ?_⟩
    unfold readLine
    rw [hrest, hf]

/-! ## Storing behind a part of a response -/

/-- What was stored for a category up to now, each response with success, and the world after
    it. -/
inductive Stored {β : Type} (a : Archive) (category : String) (first : Env β) :
    List Response → Env β → Prop where
  | start : Stored a category first [] first
  | stored {log : List Response} {env env' : Env β} {origin : String} {payload : Json}
      {r : Response} {disk : Disk β} (before : Stored a category first log env)
      (h : a.store category origin payload env disk = (.ok r, env')) :
      Stored a category first (log ++ [r]) env'

section

variable {β : Type} {a : Archive} {category : String} {first env : Env β} {log : List Response}
  {content : Bytes}

/-- The file of the category holds what was stored behind what it held. -/
theorem holds_of_stored (hfirst : a.Holds category first.files content)
    (h : Stored a category first log env) :
    a.Holds category env.files (content ++ log.flatMap Response.line) := by
  induction h with
  | start =>
    rw [List.flatMap_nil, List.append_nil]
    exact hfirst
  | stored before hstore ih =>
    have hfound := append_ok (store_ok hstore).2.1 ih
    rw [List.flatMap_append, List.flatMap_singleton, ← List.append_assoc]
    exact .file hfound

/-- Behind complete lines and a part of a response, the first response that is stored makes a line
    of its own with that part. However much is stored from then on, the complete lines are given
    and then the error of that one. -/
theorem responses_behind_torn {front torn : Bytes} {rs : List Response} {next r : Response}
    (hfound : a.found category first.files = .ok (.ok (front ++ torn)))
    (hended : front = [] ∨ isEnded front = true)
    (hfront : readLines none (linesOf front) = rs.map .ok) (htorn : torn <+: next.toJson.bytes)
    (hsome : torn ≠ []) :
    ∃ e, ∀ log (env : Env β), Stored a category first (r :: log) env → ∀ after,
      ∃ feed : Feed (Env β) (Except ArchiveError Response),
        a.responses category after env.files = .ok feed ∧
        (feed env).drain = ((rs.filter (isLater after)).map .ok ++ [.error e], env) := by
  obtain ⟨e, he⟩ := readLine_torn htorn hsome r
  refine ⟨e, ?_⟩
  intro log env hstored after
  have hholds := holds_of_stored (.file hfound) hstored
  generalize hcontent : front ++ torn ++ (r :: log).flatMap Response.line = content at hholds
  have hlines : linesOf content =
      linesOf front ++ (torn ++ r.line) :: linesOf (log.flatMap Response.line) := by
    -- Neither the part nor the response has a newline of its own.
    have hnewline : newline ∉ torn ++ r.toJson.bytes := by
      rw [List.mem_append, not_or]
      exact ⟨fun hmem => newline_notMem_bytes next.toJson (htorn.subset hmem),
        newline_notMem_bytes r.toJson⟩
    have hline : torn ++ (r :: log).flatMap Response.line =
        (torn ++ r.toJson.bytes) ++ newline :: log.flatMap Response.line := by
      rw [List.flatMap_cons]
      unfold Response.line
      simp only [List.append_assoc, List.singleton_append]
    rw [← hcontent, List.append_assoc, linesOf_append hended, hline, linesOf_ended hnewline,
      List.append_assoc]
    rfl
  have hread : readLines after (linesOf content) =
      (rs.filter (isLater after)).map .ok ++ [.error e] := by
    rw [hlines, readLines_append fun line => isEnded_of_mem_linesOf hended,
      readLines_later hfront, followedBy_responses, readLines_of_refused (he after)]
  cases hholds with
  | none hlacks =>
    have hnone := (List.append_eq_nil_iff.mp (List.append_eq_nil_iff.mp hcontent).1).2
    exact absurd hnone hsome
  | file hfile =>
    obtain ⟨place, hplace, hplaced⟩ := locate_of_found hfile
    obtain ⟨feed, hfeed, hreads⟩ := responses_of_file hplace hplaced after
    refine ⟨feed, hfeed, ?_⟩
    rw [hreads.drain hplaced, hread]

end

/-- A part of a response. -/
def tornPart : Bytes := plainResponse.toJson.bytes.take 30

/-- A world in which a part of a response stands behind a complete one. -/
def tornWorld : Env Unit :=
  ⟨filesWith ([plainResponse].flatMap Response.line ++ tornPart), ⟨fun _ => ⟨0, 0⟩, 0⟩, ()⟩

/-- The world after one more response was stored. -/
def tornWorldAfter : Env Unit :=
  (store ⟨⟨"arch"⟩⟩ recordCategory "b.jsonl" .null tornWorld).2

/-- A response is stored, and what is given is the one in front of the part and an error. -/
theorem lost_behind_part :
    found ⟨⟨"arch"⟩⟩ recordCategory tornWorld.files =
        .ok (.ok ([plainResponse].flatMap Response.line ++ tornPart)) ∧
      isEnded ([plainResponse].flatMap Response.line) = true ∧
      readLines none (linesOf ([plainResponse].flatMap Response.line)) = [plainResponse].map .ok ∧
      tornPart <+: plainResponse.toJson.bytes ∧ tornPart ≠ [] ∧
      Stored ⟨⟨"arch"⟩⟩ recordCategory tornWorld [⟨recordCategory, "b.jsonl", ⟨0, 0⟩, .null⟩]
        tornWorldAfter ∧
      ∃ (feed : Feed (Env Unit) (Except ArchiveError Response)) (e : ArchiveError),
        responses ⟨⟨"arch"⟩⟩ recordCategory none tornWorldAfter.files = .ok feed ∧
        (feed tornWorldAfter).drain = ([.ok plainResponse, .error e], tornWorldAfter) := by
  have hfound : found ⟨⟨"arch"⟩⟩ recordCategory tornWorld.files =
      .ok (.ok ([plainResponse].flatMap Response.line ++ tornPart)) := rfl
  have hended : isEnded ([plainResponse].flatMap Response.line) = true :=
    (isEnded_responses [plainResponse]).1.resolve_left (List.append_ne_nil_of_left_ne_nil
      (List.concat_ne_nil _ _) _)
  have hfront : readLines none (linesOf ([plainResponse].flatMap Response.line)) =
      [plainResponse].map .ok := by
    refine readLines_lines ?_ none
    intro r hr
    rw [List.mem_singleton.mp hr]
    exact plainResponse_readsBack
  have htorn : tornPart <+: plainResponse.toJson.bytes := List.take_prefix _ _
  have hsome : tornPart ≠ [] := by decide +kernel
  have hstore : store ⟨⟨"arch"⟩⟩ recordCategory "b.jsonl" .null tornWorld =
      (.ok ⟨recordCategory, "b.jsonl", ⟨0, 0⟩, .null⟩, tornWorldAfter) := Prod.ext rfl rfl
  have hstored : Stored ⟨⟨"arch"⟩⟩ recordCategory tornWorld
      [⟨recordCategory, "b.jsonl", ⟨0, 0⟩, .null⟩] tornWorldAfter :=
    Stored.start.stored hstore
  obtain ⟨e, he⟩ := responses_behind_torn hfound (.inr hended) hfront htorn hsome
  obtain ⟨feed, hfeed, hdrain⟩ := he [] tornWorldAfter hstored none
  exact ⟨hfound, hended, hfront, htorn, hsome, hstored, feed, e, hfeed, hdrain⟩

end Harvest.Archive
