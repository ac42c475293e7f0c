/-
  Harvest.Proofs.Archive.Composition

  The stream of the responses as a function of the octets of a file, whichever they are. It gives
  at most one error, and nothing behind it. What stands behind complete lines is read as if it was
  a file of its own, unless there is an error in front of it; and a stream of the responses behind
  an instant is the whole stream without the others, its error included
  (`responses_compositional`).
-/
import Harvest.Proofs.Archive.Log
import Harvest.Proofs.Archive.Unfinished

namespace Harvest.Archive

/-- A file of a category that holds some octets gives some replies, whatever else is in the world
    and however it is changed between two draws, as long as the octets are not. -/
def Streams (after : Option Calendar.Instant) (content : Bytes)
    (replies : List (Except ArchiveError Response)) : Prop :=
  ∀ {β : Type} (a : Archive) (category : String) (env : Env β) (place : Location),
    env.files.locate (a.categoryPath category) = .ok place →
    env.files.content place = .ok content →
    ∃ feed : Feed (Env β) (Except ArchiveError Response),
      a.responses category after env.files = .ok feed ∧
      (feed env).Reads (fun env => env.files.content place = .ok content) env replies

/-- There is nothing behind an error. -/
def OnlyLastFails (replies : List (Except ArchiveError Response)) : Prop :=
  ∀ before e behind, replies = before ++ .error e :: behind → behind = []

/-- A reply stays when only the responses behind an instant are asked for: one that is archived
    strictly later, or an error. -/
def StaysAfter (t : Calendar.Instant) : Except ArchiveError Response → Prop
  | .error _ => True
  | .ok r => t.Before r.archivedAt

instance (t : Calendar.Instant) : DecidablePred (StaysAfter t)
  | .error _ => inferInstanceAs (Decidable True)
  | .ok r => inferInstanceAs (Decidable (t.Before r.archivedAt))

theorem isAsked_some (t : Calendar.Instant) (reply : Except ArchiveError Response) :
    isAsked (some t) reply = decide (StaysAfter t reply) := by
  cases reply with
  | error e => rfl
  | ok r => exact Calendar.Instant.not_le t r.archivedAt

/-! ## Errors of a stream -/

theorem OnlyLastFails.cons {r : Response} {replies : List (Except ArchiveError Response)}
    (h : OnlyLastFails replies) : OnlyLastFails (.ok r :: replies) := by
  intro before e behind hsplit
  cases before with
  | nil => cases hsplit
  | cons reply before => exact h before e behind (List.cons.inj hsplit).2

theorem onlyLastFails_nil : OnlyLastFails [] := by
  intro before e behind hsplit
  exact absurd hsplit.symm (List.append_ne_nil_of_right_ne_nil _ (List.cons_ne_nil _ _))

theorem onlyLastFails_error (e : ArchiveError) : OnlyLastFails [.error e] := by
  intro before f behind hsplit
  have hlength := congrArg List.length hsplit
  simp only [List.length_append, List.length_cons, List.length_nil] at hlength
  apply List.eq_nil_of_length_eq_zero
  omega

/-- Reading the lines of a file ends at the first error. -/
theorem onlyLastFails_readLines (after : Option Calendar.Instant) (lines : List Bytes) :
    OnlyLastFails (readLines after lines) := by
  induction lines with
  | nil => exact onlyLastFails_nil
  | cons line lines ih =>
    cases hline : readLine after line with
    | unfinished =>
      rw [readLines_of_unfinished hline]
      exact onlyLastFails_nil
    | nothing =>
      rw [readLines_of_nothing hline]
      exact ih
    | refused e =>
      rw [readLines_of_refused hline]
      exact onlyLastFails_error e
    | response r =>
      rw [readLines_of_response hline]
      exact ih.cons

/-- Behind a stream without an error comes all of the next one. -/
theorem followedBy_of_ok {front : List (Except ArchiveError Response)}
    (h : ∀ e, .error e ∉ front) (back : List (Except ArchiveError Response)) :
    followedBy front back = front ++ back := by
  induction front with
  | nil => rfl
  | cons reply front ih =>
    cases reply with
    | error e => exact absurd List.mem_cons_self (h e)
    | ok r =>
      have hrest := ih fun e hmem => h e (List.mem_cons_of_mem _ hmem)
      rw [followedBy, hrest, List.cons_append]

/-- Behind a stream with an error comes nothing. -/
theorem followedBy_of_error {e : ArchiveError} {front : List (Except ArchiveError Response)}
    (hlast : OnlyLastFails front) (h : .error e ∈ front)
    (back : List (Except ArchiveError Response)) : followedBy front back = front := by
  induction front with
  | nil => cases h
  | cons reply front ih =>
    cases reply with
    | error f =>
      have hnone : front = [] := hlast [] f front rfl
      rw [followedBy, hnone]
    | ok r =>
      have hrest : OnlyLastFails front := fun before f behind hsplit =>
        hlast (.ok r :: before) f behind (by rw [hsplit, List.cons_append])
      have hmem : .error e ∈ front := by simpa only [List.mem_cons, reduceCtorEq, false_or] using h
      rw [followedBy, ih hrest hmem]

/-! ## The stream of a file -/

/-- The replies to the lines of a file are those of its stream, and a stream has no others. -/
theorem streams_iff (after : Option Calendar.Instant) (content : Bytes)
    (replies : List (Except ArchiveError Response)) :
    Streams after content replies ↔ replies = readLines after (linesOf content) := by
  constructor
  · intro h
    -- There is a file that holds the octets, and its stream can be drawn to the end.
    let env : Env Unit := ⟨filesWith content, ⟨fun _ => ⟨0, 0⟩, 0⟩, ()⟩
    let a : Archive := ⟨⟨"arch"⟩⟩
    have hplace : env.files.locate (a.categoryPath recordCategory) = .ok ["arch", "item.jsonl"] :=
      locate_filesWith content
    have hcontent : env.files.content ["arch", "item.jsonl"] = .ok content :=
      content_filesWith content
    obtain ⟨feed, hfeed, hreads⟩ := h a recordCategory env _ hplace hcontent
    obtain ⟨feed', hfeed', hlines⟩ := responses_of_file hplace hcontent after
    rw [hfeed, Except.ok.injEq] at hfeed'
    have hdrain := hreads.drain hcontent
    rw [hfeed', hlines.drain hcontent] at hdrain
    exact (Prod.mk.inj hdrain).1.symm
  · rintro rfl β a category env place hplace hcontent
    exact responses_of_file hplace hcontent after

/-- Every file has one stream, which is that of its octets. It gives at most one error, as the last
    of its replies. If the first part of a file is empty or ends with a newline, the stream of the
    file is that of the first part, and behind it that of the other part unless there was an error.
    Asking for what was archived after an instant leaves out the responses that were not, and
    nothing else. -/
theorem responses_compositional :
    ∃ stream : Option Calendar.Instant → Bytes → List (Except ArchiveError Response),
      (∀ after content replies,
        Streams after content replies ↔ replies = stream after content) ∧
      (∀ after content, OnlyLastFails (stream after content)) ∧
      (∀ after front back, front = [] ∨ isEnded front = true →
        ((∀ e, .error e ∉ stream after front) →
          stream after (front ++ back) = stream after front ++ stream after back) ∧
        ∀ e, .error e ∈ stream after front →
          stream after (front ++ back) = stream after front) ∧
      ∀ t content,
        stream (some t) content = (stream none content).filter (StaysAfter t) := by
  refine ⟨fun after content => readLines after (linesOf content), streams_iff,
    fun after content => onlyLastFails_readLines after _, ?_, ?_⟩
  · intro after front back hfront
    dsimp only
    have hlines : readLines after (linesOf (front ++ back)) =
        followedBy (readLines after (linesOf front)) (readLines after (linesOf back)) := by
      rw [linesOf_append hfront, readLines_append fun line => isEnded_of_mem_linesOf hfront]
    constructor
    · intro hok
      rw [hlines, followedBy_of_ok hok]
    · intro e he
      rw [hlines, followedBy_of_error (onlyLastFails_readLines after _) he]
  · intro t content
    dsimp only
    rw [readLines_after]
    apply List.filter_congr
    intro reply _
    exact isAsked_some t reply

/-- A response, a line that is none, and a response again: the stream ends with the error of the
    second line. -/
example :
    let content := plainResponse.line ++ 0x78 :: newline :: plainResponse.line
    (readLines none (linesOf content)).map Except.isOk = [true, false] := by decide +kernel

end Harvest.Archive
