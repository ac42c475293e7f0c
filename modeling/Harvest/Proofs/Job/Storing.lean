/-
  Harvest.Proofs.Job.Storing

  What passing on a stream leaves in an archive. The records whose items the queue took are stored,
  each behind the one before it, and behind them at most one more, whose item came to the queue in
  vain (`forwardAll_stores`).
-/
import Harvest.Proofs.Backend.Collecting
import Harvest.Proofs.Job.Passing

namespace Harvest

/-- An end with an item that could not be passed on: the queue refused it, or it lacked what a
    job has to know of it. -/
def endsAtItem : Except JobError Unit → Bool
  | .error (.queue _) => true
  | .error (.invalidItem _) => true
  | _ => false

/-- A run ends at an item that lacks its marks. -/
theorem endsAtItem_of_unmarked {i : Item} {e : JobError} (h : i.marks = .error e) :
    endsAtItem (.error e) = true := by
  unfold Item.marks at h
  split at h
  · cases h
    rfl
  · split at h
    · cases h
      rfl
    · cases h

/-- The queue leaves what an archive holds of a category. -/
def Queue.KeepsArchive {κ : Type} (queue : Queue κ) (name : String) (a : Archive)
    (category : String) : Prop :=
  ∀ s payload bytes, a.Holds category s.files bytes →
    a.Holds category (queue.push name payload s).2.files bytes

/-- What came of a run, apart from its job. -/
def Run.passage {β κ : Type} (run : Run β κ) : Passage β κ :=
  ⟨run.result, run.job.checkpoint, run.items, run.world⟩

/-- What was stored while a stream was passed on: the entries whose items the queue took, and one
    more behind them exactly if its item could not be passed on. -/
structure Passage.Stored {β κ : Type} (p : Passage β κ) (task : Lines.Task)
    (P : Int → Json → Item → Prop) (number : Int) (taken rest : List Entry) : Prop where
  items : p.items = taken.map Entry.item
  entries : ∀ e ∈ taken ++ rest, e.For task P fun _ : Env β => True
  from_number : ∀ e ∈ taken ++ rest, number ≤ e.line
  lines : (taken ++ rest).Pairwise fun e f => e.line < f.line
  stop : rest.length = (endsAtItem p.result).toNat

/-- What a record that could not be stored has left: a part of its line, if anything. It ends the
    run. -/
def Passage.Leaves {β κ : Type} (p : Passage β κ) (task : Lines.Task)
    (P : Int → Json → Item → Prop) (part : Bytes) : Prop :=
  part ≠ [] → ∃ (e : Entry) (fault : ArchiveError), e.For task P (fun _ : Env β => True) ∧
    part <+: e.response.line ∧ p.result = .error (.backend (.archive fault))

namespace Passage.Stored

variable {β κ : Type} {p : Passage β κ} {task : Lines.Task} {P : Int → Json → Item → Prop}
  {number : Int}

/-- Nothing was stored. -/
theorem none (hitems : p.items = []) (hend : endsAtItem p.result = false) :
    p.Stored task P number [] [] where
  items := hitems
  entries := nofun
  from_number := nofun
  lines := .nil
  stop := by simp [hend]

/-- A record was stored, and nothing was taken. -/
theorem single {e : Entry} (he : e.For task P fun _ : Env β => True) (hnumber : number ≤ e.line)
    (hitems : p.items = []) (hend : endsAtItem p.result = true) :
    p.Stored task P number [] [e] where
  items := hitems
  entries := by simpa using he
  from_number := by simpa using hnumber
  lines := List.pairwise_singleton _ e
  stop := by simp [hend]

/-- A record was stored and its item taken, in front of all the others. -/
theorem cons {e : Entry} {taken rest : List Entry}
    (h : p.Stored task P (e.line + 1) taken rest)
    (he : e.For task P fun _ : Env β => True) (hnumber : number ≤ e.line) :
    (p.cons e.item).Stored task P number (e :: taken) rest where
  items := by
    show e.item :: p.items = _
    rw [h.items, List.map_cons]
  entries := by
    intro f hf
    rcases List.mem_cons.mp hf with rfl | hf
    · exact he
    · exact h.entries f hf
  from_number := by
    intro f hf
    rcases List.mem_cons.mp hf with rfl | hf
    · exact hnumber
    · have hbehind := h.from_number f hf
      omega
  lines := by
    refine List.pairwise_cons.mpr ⟨?_, h.lines⟩
    intro f hf
    have hbehind := h.from_number f hf
    omega
  stop := h.stop

/-- Of each record that was stored, less may be told. -/
theorem mono {task' : Lines.Task} {Q : Int → Json → Item → Prop} {taken rest : List Entry}
    (h : p.Stored task P number taken rest) (horigin : task'.origin = task.origin)
    (hcategory : task'.category = task.category)
    (hrecord : ∀ line record item, P line record item → Q line record item) :
    p.Stored task' Q number taken rest where
  items := h.items
  entries := by
    intro e he
    obtain ⟨hmade, env, -, hresponse⟩ := h.entries e he
    refine ⟨hrecord _ _ _ hmade, env, trivial, ?_⟩
    rw [horigin, hcategory]
    exact hresponse
  from_number := h.from_number
  lines := h.lines
  stop := h.stop

end Passage.Stored

section

variable {β κ : Type} {disk : Disk β} {task : Lines.Task} {a : Archive}
  {P : Int → Json → Item → Prop} {C : Env β → Prop} {I : Store κ → Prop} {number : Int}
  {env : Env β} {d : Draw (Env β) (Except BackendError Item)}

/-- What is stored while a stream is passed on stands in the archive behind what it held, if the
    queue leaves the archive alone, and behind that what a record left that could not be stored.
    The stream is drawn from no worlds but those that satisfy `C`, as long as storing and pushing
    maintain `I`. -/
theorem Outlet.forwardAll_stores (outlet : Outlet κ)
    (h : d.Stores disk task a P C number env)
    (hpush : ∀ s payload, I s → I (outlet.queue.push outlet.name payload s).2)
    (hstore : ∀ line s, I s → I ⟨(a.append task.category line s.files).2, s.own⟩)
    (hworld : ∀ env own, I ⟨env.files, own⟩ → C env) (c : Checkpoint) {own : κ}
    (hstart : I ⟨env.files, own⟩) :
    let p := outlet.forwardAll d c own
    ∃ taken rest part, p.Stored task P number taken rest ∧ p.Leaves task P part ∧
      (disk = .sound → part = []) ∧
      (outlet.queue.KeepsArchive outlet.name a task.category →
        a.Gains task.category env.files p.world.env.files
          (linesOfEntries (taken ++ rest) ++ part)) := by
  induction h generalizing c own with
  | @stop number env =>
    exact ⟨[], [], [], .none rfl rfl, absurd rfl, fun _ => rfl,
      fun _ => .refl a task.category env.files⟩
  | @error number env e =>
    exact ⟨[], [], [], .none rfl rfl, absurd rfl, fun _ => rfl,
      fun _ => .refl a task.category env.files⟩
  | @unstored number line record item env env' e hnumber hrecord h =>
    obtain ⟨part, hpart, hsound, hleaves⟩ := Archive.store_leaves h
    refine ⟨[], [], part, .none rfl rfl, ?_, hsound, fun _ => hleaves⟩
    exact fun _ => ⟨⟨line, record, item, _⟩, e, ⟨hrecord, env, trivial, rfl⟩, hpart, rfl⟩
  | @stored number line record item r env moved rest hnumber hrecord h hrest ih =>
    obtain ⟨hentry, hgains⟩ := Entry.of_store (C := fun _ => True) hrecord trivial h
    have hstored : I ⟨moved.files, own⟩ := by
      obtain ⟨-, happend, -⟩ := Archive.store_ok h
      have hline := hstore r.line ⟨env.files, own⟩ hstart
      rw [happend] at hline
      exact hline
    have hpushed := hpush ⟨moved.files, own⟩ item.bytes hstored
    have hkeeps : outlet.queue.KeepsArchive outlet.name a task.category →
        a.Gains task.category env.files
          (outlet.queue.push outlet.name item.bytes ⟨moved.files, own⟩).2.files r.line :=
      fun hqueue bytes hbytes => hqueue ⟨moved.files, own⟩ item.bytes _ (hgains bytes hbytes)
    have hpasses := outlet.forwardAll_passes item c moved rest own
    generalize outlet.forwardAll (.item (.ok item) moved rest) c own = p at hpasses ⊢
    cases hpasses with
    | unmarked hm =>
      -- The record stays in the archive, although its item was not pushed.
      refine ⟨[], [_], [], .single hentry hnumber rfl (endsAtItem_of_unmarked hm), absurd rfl,
        fun _ => rfl, ?_⟩
      intro _
      rw [List.nil_append, linesOfEntries_singleton, List.append_nil]
      exact hgains
    | refused hm hp =>
      rw [hp] at hkeeps
      refine ⟨[], [_], [], .single hentry hnumber rfl rfl, absurd rfl, fun _ => rfl, ?_⟩
      intro hqueue
      rw [List.nil_append, linesOfEntries_singleton, List.append_nil]
      exact hkeeps hqueue
    | @accepted m t hm hp =>
      rw [hp] at hkeeps hpushed
      obtain ⟨taken, more, part, hstored, hleaves, hsound, hend⟩ :=
        ih { moved with files := t.files } (hworld _ _ hpushed) (c.recordItem item) hpushed
      refine ⟨_ :: taken, more, part, hstored.cons hentry hnumber, hleaves, hsound, ?_⟩
      intro hqueue
      rw [List.cons_append, linesOfEntries_cons, List.append_assoc]
      exact (hkeeps hqueue).trans (hend hqueue)

end

end Harvest
