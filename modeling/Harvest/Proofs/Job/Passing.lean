/-
  Harvest.Proofs.Job.Passing

  What a queue takes of a stream that gives a list of results. Whatever the queue refuses, it
  takes a prefix of the items that a job can pass on, and all of them if nothing ends the stream
  early (`forwardAll_yields`); a queue that refuses nothing takes all of them, unless responses
  are archived (`forwardAll_accepted`).
-/
import Harvest.Proofs.Backend.Stream

namespace Harvest.Outlet

variable {β κ : Type}

/-- What a queue takes is a prefix of the items that can be passed on, and all of them if the
    stream comes to its end. -/
theorem forwardAll_yields {I : Store κ → Prop} {queue : Queue κ} {name : String}
    (hpush : ∀ s payload, I s → I (queue.push name payload s).2) {archives : Bool}
    {d : Draw (Env β) (Except BackendError Item)} {own : κ}
    {rs : List (Except BackendError Item)} (h : d.Yields I archives own rs) (c : Checkpoint) :
    let p := forwardAll ⟨queue, name⟩ d c own
    I p.world.store ∧ p.items <+: goods rs ∧
      (p.result = .ok () → p.items = goods rs ∧ ending rs = .ok ()) := by
  induction h generalizing c with
  | stop h => exact ⟨h, List.nil_prefix, fun _ => ⟨rfl, rfl⟩⟩
  | error h e => exact ⟨h, List.nil_prefix, fun hok => nomatch hok⟩
  | cut h harchives e => exact ⟨h, List.nil_prefix, fun hok => nomatch hok⟩
  | @item env own rest i rs h hrest ih =>
    have hkeeps := hpush ⟨env.files, own⟩ i.bytes h
    have hpasses := forwardAll_passes ⟨queue, name⟩ i c env rest own
    generalize forwardAll ⟨queue, name⟩ (.item (.ok i) env rest) c own = p at hpasses ⊢
    cases hpasses with
    | unmarked hm => exact ⟨h, List.nil_prefix, fun hok => nomatch hok⟩
    | refused hm hp =>
      rw [hp] at hkeeps
      exact ⟨hkeeps, List.nil_prefix, fun hok => nomatch hok⟩
    | @accepted m t hm hp =>
      rw [hp] at hkeeps
      rw [goods_of_marks hm, ending_of_marks hm]
      obtain ⟨hstore, hprefix, hall⟩ := ih { env with files := t.files } t.own hkeeps
        (c.recordItem i)
      refine ⟨hstore, List.cons_prefix_cons.mpr ⟨rfl, hprefix⟩, ?_⟩
      intro hok
      obtain ⟨hitems, hending⟩ := hall hok
      exact ⟨congrArg (i :: ·) hitems, hending⟩

/-- A run of which the queue takes all items that can be passed on ends as the stream does. -/
theorem forwardAll_ends {I : Store κ → Prop} {queue : Queue κ} {name : String}
    (hpush : ∀ s payload, I s → I (queue.push name payload s).2)
    {d : Draw (Env β) (Except BackendError Item)} {own : κ}
    {rs : List (Except BackendError Item)} (h : d.Yields I false own rs) (c : Checkpoint)
    (hall : (forwardAll ⟨queue, name⟩ d c own).items = goods rs) :
    (forwardAll ⟨queue, name⟩ d c own).result = ending rs := by
  induction h generalizing c with
  | stop h => rfl
  | error h e => rfl
  | cut h harchives e => cases harchives
  | @item env own rest i rs h hrest ih =>
    have hkeeps := hpush ⟨env.files, own⟩ i.bytes h
    have hpasses := forwardAll_passes ⟨queue, name⟩ i c env rest own
    generalize forwardAll ⟨queue, name⟩ (.item (.ok i) env rest) c own = p at hpasses hall ⊢
    cases hpasses with
    | unmarked hm => rw [ending_of_unmarked hm]
    | refused hm hp =>
      -- The item was refused, and so not all were taken.
      rw [goods_of_marks hm] at hall
      cases hall
    | accepted hm hp =>
      rw [hp] at hkeeps
      rw [goods_of_marks hm] at hall
      rw [ending_of_marks hm]
      exact ih _ _ hkeeps _ (List.cons.inj hall).2

/-- A queue that refuses nothing takes all items that can be passed on. -/
theorem forwardAll_accepted {I : Store κ → Prop} {queue : Queue κ} {name : String}
    (haccept : ∀ s payload, I s → ∃ t, queue.push name payload s = (.ok (), t) ∧ I t)
    {d : Draw (Env β) (Except BackendError Item)} {own : κ}
    {rs : List (Except BackendError Item)} (h : d.Yields I false own rs) (c : Checkpoint) :
    (forwardAll ⟨queue, name⟩ d c own).items = goods rs ∧
      (forwardAll ⟨queue, name⟩ d c own).result = ending rs := by
  have hpush : ∀ s payload, I s → I (queue.push name payload s).2 := by
    intro s payload hs
    obtain ⟨t, hp, ht⟩ := haccept s payload hs
    rw [hp]
    exact ht
  have hitems : (forwardAll ⟨queue, name⟩ d c own).items = goods rs := by
    induction h generalizing c with
    | stop h => rfl
    | error h e => rfl
    | cut h harchives e => cases harchives
    | @item env own rest i rs h hrest ih =>
      obtain ⟨t, hpushed, ht⟩ := haccept ⟨env.files, own⟩ i.bytes h
      have hpasses := forwardAll_passes ⟨queue, name⟩ i c env rest own
      generalize forwardAll ⟨queue, name⟩ (.item (.ok i) env rest) c own = p at hpasses ⊢
      cases hpasses with
      | unmarked hm => rw [goods_of_unmarked hm]
      | refused hm hp =>
        rw [hpushed] at hp
        cases hp
      | accepted hm hp =>
        rw [hpushed] at hp
        cases hp
        rw [goods_of_marks hm]
        exact congrArg (i :: ·) (ih _ _ ht _)
  exact ⟨hitems, forwardAll_ends hpush h c hitems⟩

end Harvest.Outlet
