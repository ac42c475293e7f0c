/-
  Harvest.Proofs.Queue.Refinement

  Queues in files do what queues in memory do. However payloads are pushed to queues by name, into a
  directory that is empty or missing at first, exactly those with a newline are refused, before
  anything is touched; and each file, cut at its newlines, is the list of the payloads that the
  queue of its name has in memory (`lines_refine_memory`). What carries the proof is that the
  directory mirrors the memory (`Mirrors`), from the first push that is accepted on
  (`Refines.push`, `refines_pushAll`).
-/
import Harvest.Proofs.Files.Tidying
import Harvest.Proofs.Queue.Lines
import Harvest.Queue.Memory

namespace Harvest

/-! ## Payloads as lines -/

theorem framed_eq_intercalate (payloads : List Bytes) :
    framed payloads = [newline].intercalate (payloads ++ [[]]) := by
  induction payloads with
  | nil => rfl
  | cons payload payloads ih =>
    obtain ⟨next, rest, hrest⟩ := List.exists_cons_of_ne_nil
      (List.append_ne_nil_of_right_ne_nil payloads (List.cons_ne_nil ([] : Bytes) []))
    rw [List.cons_append, hrest, List.intercalate_cons_cons, ← hrest, ← ih]
    rfl

/-- Payloads without newlines are what their lines are cut into, with nothing behind the last
    newline. -/
theorem splitOn_framed {payloads : List Bytes} (h : ∀ payload ∈ payloads, newline ∉ payload) :
    (framed payloads).splitOn newline = payloads ++ [[]] := by
  rw [framed_eq_intercalate]
  apply List.splitOn_intercalate
  · intro piece hpiece
    rcases List.mem_append.mp hpiece with hmem | hlast
    · exact h piece hmem
    · rw [List.mem_singleton.mp hlast]
      exact List.not_mem_nil
  · exact List.append_ne_nil_of_right_ne_nil _ (List.cons_ne_nil _ _)

theorem linesOf_framed {payloads : List Bytes} (h : ∀ payload ∈ payloads, newline ∉ payload) :
    linesOf (framed payloads) = payloads.map (· ++ [newline]) := by
  induction payloads with
  | nil => rfl
  | cons payload payloads ih =>
    have hrest := ih fun p hp => h p (List.mem_cons_of_mem _ hp)
    rw [List.map_cons, ← hrest, ← linesOf_ended (h payload List.mem_cons_self)]
    simp [framed]

/-- What the file of a path holds, if the path leads to one. -/
def FileTree.read (t : FileTree) (p : Path) : Except FileFault Bytes := do
  let place ← t.locate p
  t.content place

/-- A file is cut at its newlines into payloads, with nothing behind the last newline. A file that
    is not there is cut into none. -/
inductive CutInto : Except FileFault Bytes → List Bytes → Prop where
  | missing : CutInto (.error .notFound) []
  | file {content : Bytes} {payloads : List Bytes} (hsome : payloads ≠ [])
      (hcut : content.splitOn newline = payloads ++ [[]]) : CutInto (.ok content) payloads

/-- The number of lines of a file, which is none if it is not there. -/
def lineCount : Except FileFault Bytes → Nat
  | .ok content => (linesOf content).length
  | .error _ => 0

theorem cutInto_framed {payloads : List Bytes} (h : ∀ payload ∈ payloads, newline ∉ payload) :
    let content : Except FileFault Bytes :=
      if payloads = [] then .error .notFound else .ok (framed payloads)
    CutInto content payloads ∧ lineCount content = payloads.length := by
  by_cases hnone : payloads = []
  · subst hnone
    exact ⟨.missing, rfl⟩
  · dsimp only
    rw [if_neg hnone]
    refine ⟨.file hnone (splitOn_framed h), ?_⟩
    rw [lineCount, linesOf_framed h, List.length_map]

/-- A memory to which payloads were pushed by name, one after the other. -/
def Memory.having (m : Memory) : List (String × Bytes) → Memory
  | [] => m
  | (name, payload) :: pushes => (m.push name payload).having pushes

namespace Queue

variable {κ : Type}

/-! ## Runs of pushes -/

/-- Pushes payloads to queues by name, one after the other: what each push comes to, and the store
    after the last one. -/
def pushAll (q : Queue κ) :
    List (String × Bytes) → Store κ → List (Except QueueError Unit) × Store κ
  | [], s => ([], s)
  | (name, payload) :: pushes, s =>
    let pushed := q.push name payload s
    let rest := q.pushAll pushes pushed.2
    (pushed.1 :: rest.1, rest.2)

/-- In memory every push is accepted. -/
theorem pushAll_memory (pushes : List (String × Bytes)) (s : Store Memory) :
    memory.pushAll pushes s =
      (pushes.map fun _ => .ok (), { s with own := s.own.having pushes }) := by
  induction pushes generalizing s with
  | nil => rfl
  | cons push pushes ih =>
    rw [pushAll, ih]
    rfl

/-- A queue in memory has the payloads that were pushed to it, in that order. -/
theorem items_having (pushes : List (String × Bytes)) (m : Memory) (name : String) :
    (m.having pushes).items name =
      m.items name ++ (pushes.filter fun push => push.1 = name).map Prod.snd := by
  induction pushes generalizing m with
  | nil => exact (List.append_nil _).symm
  | cons push pushes ih =>
    rw [Memory.having, ih, Memory.items_push, List.append_assoc]
    congr 1
    by_cases hname : push.1 = name
    · rw [if_pos hname.symm, List.filter_cons_of_pos (by simpa using hname)]
      rfl
    · rw [if_neg (Ne.symm hname), List.filter_cons_of_neg (by simpa using hname), List.nil_append]

/-! ## The directory of queues -/

/-- The directory of a path has nothing in it. -/
def IsVacant (dir : Path) (files : FileTree) : Prop :=
  ∃ m, files.DirectoryAt dir m ∧ ∀ name, files.node? (m ++ [name]) = none

/-- The directory for queues is empty, or it is missing and can be made, and is empty then. -/
inductive Vacant (dir : Path) (files : FileTree) : Prop where
  | empty (h : IsVacant dir files)
  | missing (hmissing : files.walk (files.start dir) dir.names = .error .notFound)
      (hmakes : (files.makeDirectories dir.tidied).1 = .ok ())
      (hempty : IsVacant dir (files.makeDirectories dir.tidied).2)

/-- What the first push that is accepted finds: no file for any queue, and once the directory is
    made, an empty one at a place `m` of the tree `made`. -/
structure Ready (dir : Path) (files made : FileTree) (m : Location) : Prop where
  absent : ∀ name, dir.CanName name → files.locate (dir.join name) = .error .notFound
  makes : ∀ name, dir.CanName name → files.makeDirectories dir.tidied = (.ok (), made)
  directory : made.DirectoryAt dir m
  vacant : ∀ name, made.node? (m ++ [name]) = none
  adds : files.Adds made

theorem Vacant.ready {dir : Path} {files : FileTree} (h : Vacant dir files) :
    ∃ made m, Ready dir files made m := by
  cases h with
  | empty h =>
    obtain ⟨m, hdirectory, hvacant⟩ := h
    refine ⟨files, m, ?_, fun _ hname => hdirectory.makeDirectories_tidied hname, hdirectory,
      hvacant, .refl files⟩
    intro name hname
    rw [hdirectory.locate_join hname, hvacant]
    rfl
  | missing hmissing hmakes hempty =>
    obtain ⟨m, hdirectory, hvacant⟩ := hempty
    exact ⟨_, m, fun _ hname => FileTree.locate_join_of_missing hname hmissing,
      fun _ _ => Prod.ext hmakes rfl, hdirectory, hvacant, files.makeDirectories_adds _⟩

/-- A tree mirrors a memory: its directory at `m` has a file for each queue with payloads, and
    everything else is as it was when the directory was made. -/
structure Mirrors (made : FileTree) (m : Location) (queues : Memory) (t : FileTree) : Prop where
  home : t.home = made.home
  file : ∀ name, t.node? (m ++ [name ++ ".jsonl"]) =
    if queues.items name = [] then none else some (.file (framed (queues.items name)))
  other : ∀ l, (∀ name, l ≠ m ++ [name ++ ".jsonl"]) → t.node? l = made.node? l

/-- A tree stands for a memory: nothing was accepted yet, or the tree mirrors the memory. -/
inductive Refines (files made : FileTree) (m : Location) (queues : Memory) (t : FileTree) :
    Prop where
  | untouched (htree : t = files) (hqueues : queues = .empty)
  | mirrors (h : Mirrors made m queues t)

section

variable {dir : Path} {files made t : FileTree} {m : Location} {queues : Memory} {name : String}

theorem place_injective {c d : String} (h : m ++ [c ++ ".jsonl"] = m ++ [d ++ ".jsonl"]) :
    c = d := by
  rw [List.append_cancel_left_eq, List.cons.injEq] at h
  exact Path.fileName_injective h.1

/-- The directory mirrors an empty memory when it is made. -/
theorem Ready.mirrors (h : Ready dir files made m) : Mirrors made m .empty made :=
  ⟨rfl, fun _ => h.vacant _, fun _ _ => rfl⟩

/-- Nothing is taken away from the directory. -/
theorem Mirrors.grows (h : Mirrors made m queues t) (hready : Ready dir files made m) :
    made.Grows t := by
  have hkept : ∀ l, (made.node? l).isSome = true → t.node? l = made.node? l := by
    intro l hl
    apply h.other
    rintro _ rfl
    rw [hready.vacant] at hl
    cases hl
  refine ⟨h.home, fun l hl => (hkept l hl).symm ▸ hl, ?_⟩
  intro l hl
  rw [hkept l (by rw [hl]; rfl), hl]

/-- One more line in the file of a queue is one more payload in memory. -/
theorem Mirrors.put (h : Mirrors made m queues t) (name : String) (payload : Bytes) :
    Mirrors made m (queues.push name payload)
      (t.put (m ++ [name ++ ".jsonl"])
        (.file (t.octets (m ++ [name ++ ".jsonl"]) ++ (payload ++ [newline])))) := by
  have hplace : m ++ [name ++ ".jsonl"] ≠ [] := List.append_ne_nil_of_right_ne_nil _ (by simp)
  have hold : t.octets (m ++ [name ++ ".jsonl"]) = framed (queues.items name) := by
    have hnode := h.file name
    by_cases hnone : queues.items name = []
    · rw [if_pos hnone] at hnode
      rw [FileTree.octets_of_absent hnode, hnone, framed_nil]
    · rw [if_neg hnone] at hnode
      apply FileTree.octets_of_content
      rw [FileTree.content, hnode]
  refine ⟨h.home, ?_, ?_⟩
  · intro other
    rw [FileTree.node?_put _ hplace, Memory.items_push]
    by_cases hother : other = name
    · subst hother
      rw [if_pos rfl, if_pos rfl, if_neg (by simp), hold, framed_append, framed_singleton]
    · rw [if_neg fun heq => hother (place_injective heq), if_neg hother, List.append_nil, h.file]
  · intro l hl
    rw [FileTree.node?_put _ hplace, if_neg (hl name), h.other l hl]

/-- What the file of a queue holds: the lines of its payloads in memory, and there is no file as
    long as there are none. -/
theorem Refines.read (h : Refines files made m queues t) (hready : Ready dir files made m)
    (hname : dir.CanName (name ++ ".jsonl")) :
    t.read (linesPath dir name) =
      if queues.items name = [] then .error .notFound else .ok (framed (queues.items name)) := by
  unfold FileTree.read linesPath
  cases h with
  | untouched htree hqueues =>
    rw [htree, hqueues, hready.absent _ hname]
    rfl
  | mirrors h =>
    have hdirectory := hready.directory.grows (h.grows hready)
    rw [hdirectory.locate_join hname, h.file]
    by_cases hnone : queues.items name = []
    · rw [if_pos hnone, if_pos hnone]
      rfl
    · rw [if_neg hnone, if_neg hnone]
      refine (bind_of_ok rfl _).trans ?_
      rw [FileTree.content, h.file, if_neg hnone]

/-- A payload without a newline is appended to the file of its queue, and from then on the tree
    mirrors the memory to which the payload is pushed, too. Nothing but that file is changed. -/
theorem Refines.push (h : Refines files made m queues t) (hready : Ready dir files made m)
    (hname : dir.CanName (name ++ ".jsonl")) (payload : Bytes) :
    ∃ u, appendLine (linesPath dir name) payload t = (.ok (), u) ∧
      Mirrors made m (queues.push name payload) u ∧
      u.locate (linesPath dir name) = .ok (m ++ [name ++ ".jsonl"]) ∧
      ∀ l n, t.node? l = some n → u.node? l = some n ∨ l = m ++ [name ++ ".jsonl"] := by
  -- The first push makes the directory, and the others find it.
  obtain ⟨v, hmakes, hadds, hv⟩ : ∃ v, t.makeDirectories dir.tidied = (.ok (), v) ∧ t.Adds v ∧
      Mirrors made m queues v := by
    cases h with
    | untouched htree hqueues =>
      rw [htree, hqueues]
      exact ⟨made, hready.makes _ hname, hready.adds, hready.mirrors⟩
    | mirrors h =>
      have hdirectory := hready.directory.grows (h.grows hready)
      exact ⟨t, hdirectory.makeDirectories_tidied hname, .refl t, h⟩
  have hdirectory := hready.directory.grows (hv.grows hready)
  have hnode : v.node? (m ++ [name ++ ".jsonl"]) ≠ some .directory := by
    rw [hv.file]
    split <;> exact nofun
  have happend := hdirectory.append_join hname hnode (payload ++ [newline])
  have hput := hv.put name payload
  refine ⟨_, ?_, hput, ?_, ?_⟩
  · unfold appendLine linesPath
    rw [Path.parent?_join hname.slash hname.own]
    dsimp only
    rw [hmakes]
    dsimp only
    rw [FileTree.write_whole, happend]
    rfl
  · have hlater := hready.directory.grows (hput.grows hready)
    unfold linesPath
    rw [hlater.locate_join hname, hput.file, if_neg (by simp [Memory.items_push])]
  · intro l n hl
    rw [FileTree.node?_put _ (List.append_ne_nil_of_right_ne_nil _ (by simp))]
    by_cases hplace : l = m ++ [name ++ ".jsonl"]
    · exact .inr hplace
    · rw [if_neg hplace]
      exact .inl (hadds.kept l n hl)

/-! ## Whole runs -/

/-- What a push comes to: a payload with a newline is refused, and every other one accepted. -/
def outcome (payload : Bytes) : Except QueueError Unit :=
  if newline ∈ payload then .error (.invalidPayload "payload contains a newline") else .ok ()

/-- The pushes of payloads without a newline. -/
def unbroken (pushes : List (String × Bytes)) : List (String × Bytes) :=
  pushes.filter fun push => newline ∉ push.2

/-- However payloads are pushed, the tree stands for the memory of those without a newline. -/
theorem refines_pushAll (hready : Ready dir files made m) {pushes : List (String × Bytes)}
    (hnames : ∀ push ∈ pushes, dir.CanName (push.1 ++ ".jsonl"))
    (h : Refines files made m queues t) (own : κ) :
    ((lines dir).pushAll pushes ⟨t, own⟩).1 = pushes.map (fun push => outcome push.2) ∧
      Refines files made m
        (queues.having (unbroken pushes))
        ((lines dir).pushAll pushes ⟨t, own⟩).2.files := by
  -- A push that is refused leaves tree and memory as they are. One that is accepted is made on
  -- both sides, and from then on the tree mirrors the memory.
  induction pushes generalizing queues t with
  | nil => exact ⟨rfl, h⟩
  | cons push pushes ih =>
    obtain ⟨name, payload⟩ := push
    have hothers : ∀ push ∈ pushes, dir.CanName (push.1 ++ ".jsonl") := fun p hp =>
      hnames p (List.mem_cons_of_mem _ hp)
    rw [pushAll, List.map_cons]
    by_cases hpayload : newline ∈ payload
    · have hskip : unbroken ((name, payload) :: pushes) = unbroken pushes :=
        List.filter_cons_of_neg (by simpa using hpayload)
      obtain ⟨hresults, hrefines⟩ := ih hothers h
      rw [lines_push_of_mem hpayload, hskip, outcome, if_pos hpayload]
      exact ⟨congrArg _ hresults, hrefines⟩
    · have htake : unbroken ((name, payload) :: pushes) = (name, payload) :: unbroken pushes :=
        List.filter_cons_of_pos (by simpa using hpayload)
      obtain ⟨u, hpush, hmirrors, -⟩ := h.push hready (hnames _ List.mem_cons_self) payload
      obtain ⟨hresults, hrefines⟩ := ih hothers (.mirrors hmirrors)
      rw [lines_push_of_notMem hpayload, htake, outcome, if_neg hpayload, hpush, Memory.having]
      exact ⟨congrArg _ hresults, hrefines⟩

/-- The payloads that are in memory have no newlines. -/
theorem newline_notMem_items {pushes : List (String × Bytes)} {payload : Bytes}
    (h : payload ∈ (Memory.empty.having (unbroken pushes)).items name) : newline ∉ payload := by
  rw [items_having, Memory.items_empty, List.nil_append] at h
  obtain ⟨push, hpush, rfl⟩ := List.mem_map.mp h
  have hunbroken := List.mem_filter.mp (List.mem_filter.mp hpush).1
  simpa using hunbroken.2

/-- Queues in files do what queues in memory do. If the directory is empty, or missing, and every
    file can have its name, then a push is refused if and only if its payload has a newline, and
    every other push is accepted. A push that is refused leaves everything as it is, and one that
    is accepted changes nothing but the file of its queue, so that no other queue holds anything
    else than before. In the end each file, cut at its newlines, is the list of the payloads that
    the queue of its name has in memory after the same pushes without the refused ones, and has as
    many lines. -/
theorem lines_refine_memory {dir : Path} {files : FileTree} (hvacant : Vacant dir files)
    {pushes : List (String × Bytes)} (hnames : ∀ push ∈ pushes, dir.CanName (push.1 ++ ".jsonl"))
    (own : κ) :
    let first : Store κ := ⟨files, own⟩
    let pushed := (lines dir).pushAll pushes first
    let kept := memory.pushAll (unbroken pushes) ⟨files, .empty⟩
    pushed.1 = pushes.map (fun push => outcome push.2) ∧
      kept.1 = (unbroken pushes).map (fun _ => .ok ()) ∧
      (∀ before name payload behind, pushes = before ++ (name, payload) :: behind →
        let s := ((lines dir).pushAll before first).2
        let u := ((lines dir).push name payload s).2
        (newline ∈ payload → u = s) ∧
        (∀ l n, s.files.node? l = some n →
          u.files.node? l = some n ∨ u.files.locate (linesPath dir name) = .ok l) ∧
        ∀ other, other ≠ name → dir.CanName (other ++ ".jsonl") →
          u.files.read (linesPath dir other) = s.files.read (linesPath dir other)) ∧
      ∀ name, dir.CanName (name ++ ".jsonl") →
        CutInto (pushed.2.files.read (linesPath dir name)) (kept.2.own.items name) ∧
        lineCount (pushed.2.files.read (linesPath dir name)) = kept.2.own.size name := by
  -- The directory is made by the first push that is accepted, but what is made is known before.
  obtain ⟨made, m, hready⟩ := hvacant.ready
  have hstart : Refines files made m .empty files := .untouched rfl rfl
  intro first pushed kept
  obtain ⟨hresults, hrefines⟩ := refines_pushAll hready hnames hstart own
  have hkept : kept = ((unbroken pushes).map fun _ => .ok (),
      ⟨files, Memory.empty.having (unbroken pushes)⟩) :=
    pushAll_memory _ _
  refine ⟨hresults, by rw [hkept], ?_, ?_⟩
  · intro before name payload behind hsplit s u
    have hbefore : ∀ push ∈ before, dir.CanName (push.1 ++ ".jsonl") := fun push hpush =>
      hnames push (by rw [hsplit]; exact List.mem_append_left _ hpush)
    have hname : dir.CanName (name ++ ".jsonl") :=
      hnames (name, payload) (by rw [hsplit]; exact List.mem_append_right _ List.mem_cons_self)
    have hs := (refines_pushAll hready hbefore hstart own).2
    by_cases hpayload : newline ∈ payload
    · have hu : u = s := by
        show ((lines dir).push name payload s).2 = s
        rw [lines_push_of_mem hpayload]
      refine ⟨fun _ => hu, ?_, ?_⟩
      · intro l n hl
        rw [hu]
        exact .inl hl
      · intro other _ _
        rw [hu]
    · obtain ⟨v, hpush, hmirrors, hlocate, hnodes⟩ := hs.push hready hname payload
      have hu : u.files = v := by
        show ((lines dir).push name payload s).2.files = v
        rw [lines_push_of_notMem hpayload]
        exact congrArg Prod.snd hpush
      rw [hu]
      -- Any other queue has in memory what it had, so that its file holds what it held.
      refine ⟨fun hmem => absurd hmem hpayload, ?_, ?_⟩
      · intro l n hl
        rcases hnodes l n hl with hsame | rfl
        · exact .inl hsame
        · exact .inr hlocate
      · intro other hother hcan
        have hitems :=
          (Memory.empty.having (unbroken before)).items_push name other payload
        rw [if_neg hother, List.append_nil] at hitems
        rw [Refines.read (.mirrors hmirrors) hready hcan, hs.read hready hcan, hitems]
  · intro name hname
    have hcut : ∀ payload ∈ (Memory.empty.having (unbroken pushes)).items name,
        newline ∉ payload := fun _ => newline_notMem_items
    rw [hkept]
    show CutInto (FileTree.read ((lines dir).pushAll pushes ⟨files, own⟩).2.files _) _ ∧
      lineCount (FileTree.read ((lines dir).pushAll pushes ⟨files, own⟩).2.files _) = _
    rw [hrefines.read hready hname]
    exact cutInto_framed hcut

end

/-- Pushes to two queues: a letter, a carriage return, a payload with a newline and an empty one. -/
def mixedPushes : List (String × Bytes) :=
  [("items", [0x61]), ("other", [carriageReturn]), ("items", [0x61, newline]), ("items", [])]

/-- A tree without files, and a path that leads nowhere in it yet. -/
theorem vacant_queues : Vacant ⟨"queues"⟩ ⟨[], []⟩ :=
  .missing rfl rfl ⟨["queues"], ⟨rfl, rfl⟩, fun _ => rfl⟩

/-- The third push is refused, and each file is cut into the payloads of its queue. -/
theorem mixed_pushes_kept :
    Vacant ⟨"queues"⟩ ⟨[], []⟩ ∧
      (∀ push ∈ mixedPushes, Path.CanName ⟨"queues"⟩ (push.1 ++ ".jsonl")) ∧
      let pushed := (lines ⟨"queues"⟩).pushAll mixedPushes ⟨⟨[], []⟩, ()⟩
      pushed.1.map Except.isOk = [true, true, false, true] ∧
      CutInto (pushed.2.files.read (linesPath ⟨"queues"⟩ "items")) [[0x61], []] ∧
      CutInto (pushed.2.files.read (linesPath ⟨"queues"⟩ "other")) [[carriageReturn]] ∧
      CutInto (pushed.2.files.read (linesPath ⟨"queues"⟩ "none")) [] := by
  have hcan : ∀ name ∈ ["items", "other", "none"],
      Path.CanName ⟨"queues"⟩ (name ++ ".jsonl") := by
    intro name hname
    have hfits : ∀ name ∈ ["items", "other", "none"], '/' ∉ name.toList ∧ '\x00' ∉ name.toList ∧
        Utf8.size (name ++ ".jsonl").toList ≤ FileTree.longestName := by decide
    obtain ⟨hslash, hnul, hshort⟩ := hfits name hname
    exact FileTree.canName_fileName hslash hnul hshort (by decide) (by decide)
  have hnames : ∀ push ∈ mixedPushes, Path.CanName ⟨"queues"⟩ (push.1 ++ ".jsonl") := by
    intro push hpush
    have hqueues : ∀ push ∈ mixedPushes, push.1 ∈ ["items", "other", "none"] := by decide
    exact hcan _ (hqueues push hpush)
  obtain ⟨hresults, -, -, hcut⟩ := lines_refine_memory vacant_queues hnames ()
  refine ⟨vacant_queues, hnames, ?_, (hcut "items" (hcan _ (by decide))).1,
    (hcut "other" (hcan _ (by decide))).1, (hcut "none" (hcan _ (by decide))).1⟩
  rw [hresults]
  rfl

end Queue

end Harvest
