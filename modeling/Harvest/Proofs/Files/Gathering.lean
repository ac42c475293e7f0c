/-
  Harvest.Proofs.Files.Gathering

  What a file gathers while other files of the tree are written to, too. A path may lead nowhere at
  first, and directories that are made may bring a file to light, so that what is gathered is told
  by the place to which the path leads in the end (`Gathers`). Steps follow one another
  (`Gathers.trans`): making directories gathers nothing, appending to the path gathers the data,
  and appending to one of the other paths gathers nothing, as long as that path does not lead to
  the same file.
-/
import Harvest.Proofs.Files.Writing

namespace Harvest.FileTree

/-- The octets of the file at a place, and none if there is no file. -/
def octets (t : FileTree) (place : Location) : Bytes :=
  match t.content place with
  | .ok bs => bs
  | .error _ => []

theorem octets_of_content {t : FileTree} {l : Location} {bs : Bytes} (h : t.content l = .ok bs) :
    t.octets l = bs := by
  simp [octets, h]

theorem octets_of_absent {t : FileTree} {l : Location} (h : t.node? l = none) :
    t.octets l = [] := by
  simp [octets, content, h]

/-- Directories that are added have no octets. -/
theorem Adds.octets {t u : FileTree} (h : t.Adds u) (l : Location) : u.octets l = t.octets l := by
  cases hnode : t.node? l with
  | some n => simp [FileTree.octets, FileTree.content, hnode, h.kept l n hnode]
  | none =>
    rcases h.added l hnode with hnone | hdirectory
    · simp [FileTree.octets, FileTree.content, hnode, hnone]
    · simp [FileTree.octets, FileTree.content, hnode, hdirectory]

namespace Appends

variable {t u : FileTree} {p : Path} {data old : Bytes} {l : Location}

theorem octets (h : t.Appends u p data l old) : u.octets l = t.octets l ++ data := by
  rw [octets_of_content h.content]
  rcases h.before with ⟨-, hcontent⟩ | ⟨-, hnone, rfl⟩
  · rw [octets_of_content hcontent]
  · rw [octets_of_absent hnone]

theorem octets_of_ne (h : t.Appends u p data l old) {m : Location} (hm : m ≠ l) :
    u.octets m = t.octets m := by
  simp only [FileTree.octets, h.content_of_ne hm]

end Appends

/-- A place is free of paths if none of them leads to it. -/
def FreeOf (t : FileTree) (others : List Path) (l : Location) : Prop :=
  ∀ q ∈ others, t.locate q ≠ .ok l

/-- What was free of paths in a later tree was free of them before. -/
theorem Grows.freeOf {t u : FileTree} (h : t.Grows u) {others : List Path} {l : Location}
    (hl : u.FreeOf others l) : t.FreeOf others l :=
  fun q hq hlocated => hl q hq (h.locate hlocated)

/-- From one tree to another the file of a path gathered data, and all other files that are free
    of some other paths stayed what they were. -/
structure Gathers (t u : FileTree) (p : Path) (others : List Path) (data : Bytes) : Prop where
  grows : t.Grows u
  /-- Data is somewhere. -/
  located : data ≠ [] → ∃ l, u.locate p = .ok l
  gathered : ∀ l, u.FreeOf others l → u.locate p = .ok l → u.octets l = t.octets l ++ data
  kept : ∀ l, u.FreeOf others l → u.locate p ≠ .ok l → u.octets l = t.octets l

namespace Gathers

variable {t u v : FileTree} {p : Path} {others : List Path} {data more : Bytes}

/-- A tree that grows without a change to its files gathers nothing. -/
theorem of_kept (hgrows : t.Grows u) (h : ∀ l, u.FreeOf others l → u.octets l = t.octets l) :
    t.Gathers u p others [] where
  grows := hgrows
  located := fun hne => absurd rfl hne
  gathered := fun l hl _ => by rw [h l hl, List.append_nil]
  kept := fun l hl _ => h l hl

theorem of_adds (h : t.Adds u) : t.Gathers u p others [] :=
  .of_kept h.grows fun l _ => h.octets l

theorem refl (t : FileTree) : t.Gathers t p others [] := .of_adds (.refl t)

theorem of_appends {l : Location} {old : Bytes} (h : t.Appends u p data l old) :
    t.Gathers u p others data where
  grows := h.grows
  located := fun _ => ⟨l, h.located⟩
  gathered := by
    intro m _ hm
    rw [h.located] at hm
    cases hm
    exact h.octets
  kept := by
    intro m _ hm
    refine h.octets_of_ne ?_
    rintro rfl
    exact hm h.located

theorem of_append (h : t.append p data = .ok u) : t.Gathers u p others data := by
  obtain ⟨l, old, happends⟩ := append_eq_ok h
  exact .of_appends happends

/-- What is appended to another path is not gathered. -/
theorem of_other {q : Path} {l : Location} {old line : Bytes} (h : t.Appends u q line l old)
    (hq : q ∈ others) : t.Gathers u p others [] := by
  refine .of_kept h.grows ?_
  intro m hm
  refine h.octets_of_ne ?_
  rintro rfl
  exact hm q hq h.located

/-- What is gathered first stands in front of what is gathered then. -/
theorem trans (h : t.Gathers u p others data) (k : u.Gathers v p others more) :
    t.Gathers v p others (data ++ more) where
  grows := h.grows.trans k.grows
  located := by
    intro hne
    by_cases hmore : more = []
    · rw [hmore, List.append_nil] at hne
      obtain ⟨l, hl⟩ := h.located hne
      exact ⟨l, k.grows.locate hl⟩
    · exact k.located hmore
  gathered := by
    intro l hfree hl
    have hfree' := k.grows.freeOf hfree
    rw [k.gathered l hfree hl]
    by_cases hbefore : u.locate p = .ok l
    · rw [h.gathered l hfree' hbefore, List.append_assoc]
    · -- The path led nowhere yet, so that nothing was gathered.
      have hdata : data = [] := by
        refine Classical.byContradiction fun hne => ?_
        obtain ⟨m, hm⟩ := h.located hne
        have heq := (k.grows.locate hm).symm.trans hl
        cases heq
        exact hbefore hm
      rw [h.kept l hfree' hbefore, hdata, List.nil_append]
  kept := by
    intro l hfree hl
    have hbefore : u.locate p ≠ .ok l := fun hlocated => hl (k.grows.locate hlocated)
    rw [k.kept l hfree hl, h.kept l (k.grows.freeOf hfree) hbefore]

end Gathers

end Harvest.FileTree
