/-
  Harvest.Proofs.Files.Writing

  What writing does to a tree of files. Making directories only adds directories (`Adds`), and
  appending changes nothing but the file at the end of its path (`append_eq_ok`). Neither takes
  a directory away, so that a path leads where it led before (`Grows.locate`).
-/
import Harvest.Files.Tree
import Harvest.Proofs.Outcome

namespace Harvest.FileTree

/-! ## Trees that grow -/

/-- Nothing was taken away from a tree, and its directories are directories still. -/
structure Grows (t u : FileTree) : Prop where
  home : u.home = t.home
  kept : ∀ l, (t.node? l).isSome = true → (u.node? l).isSome = true
  directory : ∀ l, t.node? l = some .directory → u.node? l = some .directory

/-- Directories were added to a tree, and nothing else was changed. -/
structure Adds (t u : FileTree) : Prop where
  home : u.home = t.home
  kept : ∀ l n, t.node? l = some n → u.node? l = some n
  added : ∀ l, t.node? l = none → u.node? l = none ∨ u.node? l = some .directory

theorem Grows.trans {t u v : FileTree} (h : t.Grows u) (k : u.Grows v) : t.Grows v where
  home := k.home.trans h.home
  kept := fun l hl => k.kept l (h.kept l hl)
  directory := fun l hl => k.directory l (h.directory l hl)

theorem Adds.refl (t : FileTree) : t.Adds t := ⟨rfl, fun _ _ h => h, fun _ h => .inl h⟩

theorem Adds.trans {t u v : FileTree} (h : t.Adds u) (k : u.Adds v) : t.Adds v where
  home := k.home.trans h.home
  kept := fun l n hl => k.kept l n (h.kept l n hl)
  added := by
    intro l hl
    rcases h.added l hl with hnone | hdirectory
    · exact k.added l hnone
    · exact .inr (k.kept l .directory hdirectory)

theorem Adds.grows {t u : FileTree} (h : t.Adds u) : t.Grows u where
  home := h.home
  kept := by
    intro l hl
    obtain ⟨n, hn⟩ := Option.isSome_iff_exists.mp hl
    rw [h.kept l n hn]
    rfl
  directory := fun l hl => h.kept l .directory hl

theorem Adds.content {t u : FileTree} (h : t.Adds u) {l : Location} {bs : Bytes}
    (hl : t.content l = .ok bs) : u.content l = .ok bs := by
  unfold FileTree.content at hl ⊢
  split at hl
  · next hnode =>
    rw [h.kept l _ hnode]
    exact hl
  · cases hl
  · cases hl

/-- Putting something where no directory is takes nothing away. -/
theorem grows_put {t : FileTree} {l : Location} (hl : l ≠ [])
    (h : t.node? l ≠ some .directory) (n : Node) : t.Grows (t.put l n) where
  home := rfl
  kept := by
    intro m hm
    rw [node?_put t hl]
    by_cases hml : m = l
    · rw [if_pos hml]
      rfl
    · rw [if_neg hml]
      exact hm
  directory := by
    intro m hm
    rw [node?_put t hl]
    by_cases hml : m = l
    · subst hml
      exact absurd hm h
    · rw [if_neg hml]
      exact hm

theorem adds_put {t : FileTree} {l : Location} (hl : l ≠ []) (h : t.node? l = none) :
    t.Adds (t.put l .directory) where
  home := rfl
  kept := by
    intro m n hm
    have hml : m ≠ l := by
      rintro rfl
      rw [h] at hm
      cases hm
    rw [node?_put t hl, if_neg hml]
    exact hm
  added := by
    intro m hm
    rw [node?_put t hl]
    by_cases hml : m = l
    · rw [if_pos hml]
      exact .inr rfl
    · rw [if_neg hml]
      exact .inl hm

/-! ## Paths -/

/-- A name leads from a place where it led before. -/
theorem Grows.step {t u : FileTree} (h : t.Grows u) {l m : Location} {name : String}
    (hm : t.step l name = .ok m) : u.step l name = .ok m := by
  unfold FileTree.step at hm ⊢
  split at hm
  · next hdirectory =>
    rw [h.directory l hdirectory]
    dsimp only
    split at hm
    · next hdot =>
      rw [if_pos hdot]
      exact hm
    · next hdot =>
      rw [if_neg hdot]
      split at hm
      · next hup =>
        rw [if_pos hup]
        exact hm
      · next hup =>
        rw [if_neg hup]
        split at hm
        · cases hm
        · next hlength =>
          rw [if_neg hlength]
          split at hm
          · cases hm
          · next hthere =>
            -- What the name leads to was there before, and is kept.
            have hsome : (t.node? (l ++ [name])).isSome = true := by
              rw [Option.isSome_iff_ne_none]
              intro hnone
              rw [hnone] at hthere
              exact hthere rfl
            have hstill := h.kept _ hsome
            have hnot : ¬ (u.node? (l ++ [name])).isNone = true := by
              rw [Option.isNone_iff_eq_none]
              intro hnone
              rw [hnone] at hstill
              cases hstill
            rw [if_neg hnot]
            exact hm
  · cases hm

theorem Grows.walk {t u : FileTree} (h : t.Grows u) {l m : Location} {names : List String}
    (hm : t.walk l names = .ok m) : u.walk l names = .ok m := by
  induction names generalizing l with
  | nil => exact hm
  | cons name names ih =>
    unfold FileTree.walk at hm ⊢
    rw [List.foldlM_cons] at hm ⊢
    cases hstep : t.step l name with
    | error f =>
      rw [hstep] at hm
      cases hm
    | ok k =>
      rw [hstep] at hm
      refine (bind_of_ok (h.step hstep) _).trans ?_
      exact ih hm

theorem Grows.start {t u : FileTree} (h : t.Grows u) (p : Path) : u.start p = t.start p := by
  unfold FileTree.start
  rw [h.home]

/-- Behind a walk along some names comes one step more. -/
theorem walk_concat (t : FileTree) {l m : Location} {names : List String}
    (hm : t.walk l names = .ok m) (name : String) :
    t.walk l (names ++ [name]) = t.step m name := by
  unfold walk at hm ⊢
  rw [List.foldlM_append]
  refine (bind_of_ok hm _).trans ?_
  cases hstep : t.step m name with
  | error f => exact bind_of_error hstep _
  | ok k => exact bind_of_ok hstep _

/-- The place of a path is that of its names, if it asks for no directory. -/
theorem locate_eq_walk (t : FileTree) {p : Path} (hpath : checkPath p = .ok ())
    (hslash : p.endsWithSlash = false) : t.locate p = t.walk (t.start p) p.names := by
  unfold locate
  refine (bind_of_ok hpath _).trans ?_
  cases hwalk : t.walk (t.start p) p.names with
  | error f => rfl
  | ok l =>
    show (if (p.endsWithSlash && _) = true then _ else _) = _
    rw [hslash]
    rfl

/-- A path leads where it led before. -/
theorem Grows.locate {t u : FileTree} (h : t.Grows u) {p : Path} {l : Location}
    (hl : t.locate p = .ok l) : u.locate p = .ok l := by
  unfold FileTree.locate at hl ⊢
  cases hpath : checkPath p with
  | error f =>
    rw [hpath] at hl
    cases hl
  | ok v =>
    rw [hpath] at hl
    cases hwalk : t.walk (t.start p) p.names with
    | error f =>
      rw [hwalk] at hl
      cases hl
    | ok m =>
      rw [hwalk] at hl
      have hl : (if (p.endsWithSlash && t.node? m != some .directory) = true then
          throw FileFault.notDirectory else pure m) = Except.ok l := hl
      rw [h.start]
      refine (bind_of_ok rfl _).trans ?_
      refine (bind_of_ok (h.walk hwalk) _).trans ?_
      show (if (p.endsWithSlash && u.node? m != some .directory) = true then _ else _) = _
      split at hl
      · cases hl
      · next hslash =>
        -- A path that ends with a slash asks for a directory, and what was one is one still.
        have hstill : ¬ (p.endsWithSlash && u.node? m != some .directory) = true := by
          intro hends
          simp only [Bool.and_eq_true, bne_iff_ne, ne_eq] at hends hslash
          exact hslash ⟨hends.1, fun hd => hends.2 (h.directory m hd)⟩
        rw [if_neg hstill]
        exact hl

/-! ## Making directories -/

theorem makeDirectory_adds {t u : FileTree} {p : Path} (h : t.makeDirectory p = .ok u) :
    t.Adds u := by
  obtain ⟨⟨l, last?⟩, -, h⟩ := of_bind_eq_ok h
  cases last? with
  | none => cases h
  | some name =>
    obtain ⟨-, h⟩ := of_check_eq_ok h
    obtain ⟨-, h⟩ := of_check_eq_ok h
    cases hnode : t.node? (l ++ [name]) with
    | some n =>
      rw [hnode] at h
      cases h
    | none =>
      rw [hnode] at h
      cases h
      exact adds_put (by simp) hnode

theorem makeDirectoriesFrom_adds (fuel : Nat) (t : FileTree) (p : Path) :
    t.Adds (makeDirectoriesFrom fuel t p).2 := by
  induction fuel generalizing t p with
  | zero => exact Adds.refl t
  | succ fuel ih =>
    unfold makeDirectoriesFrom
    split
    · exact Adds.refl t
    · split
      · next u hmade => exact makeDirectory_adds hmade
      · split
        · exact Adds.refl t
        · next above _ =>
          -- The directories above are made first, and then the last one is tried once more.
          have habove := ih t above
          split
          · next f u hmade =>
            rw [hmade] at habove
            exact habove
          · next u hmade =>
            rw [hmade] at habove
            split
            · next v hlast => exact habove.trans (makeDirectory_adds hlast)
            · exact habove
      · exact Adds.refl t

/-- Making directories adds directories and changes nothing else, whatever comes of it. -/
theorem makeDirectories_adds (t : FileTree) (p : Path) : t.Adds (t.makeDirectories p).2 :=
  makeDirectoriesFrom_adds _ t p

/-! ## Appending -/

/-- Appending puts a file where the path then leads. Its content is the one it had, if the path
    led to it before, or nothing, with the data behind it. -/
structure Appends (t u : FileTree) (p : Path) (data : Bytes) (l : Location) (old : Bytes) :
    Prop where
  ne : l ≠ []
  put : u = t.put l (.file (old ++ data))
  node : t.node? l ≠ some .directory
  located : u.locate p = .ok l
  before : (t.locate p = .ok l ∧ t.content l = .ok old) ∨
    (t.locate p = .error .notFound ∧ t.node? l = none ∧ old = [])

theorem locateLast_eq_ok {t : FileTree} {p : Path} {l : Location} {last? : Option String}
    (h : t.locateLast p = .ok (l, last?)) :
    checkPath p = .ok () ∧ t.walk (t.start p) p.names.dropLast = .ok l ∧
      t.node? l = some .directory ∧ last? = p.names.getLast? := by
  obtain ⟨u, hpath, h⟩ := of_bind_eq_ok h
  obtain ⟨m, hwalk, h⟩ := of_bind_eq_ok h
  obtain ⟨hnode, h⟩ := of_check_eq_ok h
  cases h
  have hdirectory : t.node? l = some .directory := by simpa using hnode
  exact ⟨hpath, hwalk, hdirectory, rfl⟩

/-- A step to a name in a directory, if it is a name of its own. -/
theorem step_of_name {t : FileTree} {l : Location} {name : String}
    (hdirectory : t.node? l = some .directory) (hdot : ¬ name = ".") (hup : ¬ name = "..")
    (hlength : ¬ longestName < Utf8.size name.toList) :
    t.step l name =
      if (t.node? (l ++ [name])).isNone = true then .error .notFound else .ok (l ++ [name]) := by
  unfold step
  rw [hdirectory]
  dsimp only
  rw [if_neg hdot, if_neg hup, if_neg hlength]

theorem append_eq_ok {t u : FileTree} {p : Path} {data : Bytes} (h : t.append p data = .ok u) :
    ∃ l old, t.Appends u p data l old := by
  obtain ⟨⟨l, last?⟩, hlast, h⟩ := of_bind_eq_ok h
  obtain ⟨hpath, hwalk, hdirectory, hlast?⟩ := locateLast_eq_ok hlast
  cases last? with
  | none => cases h
  | some name =>
    obtain ⟨hname, h⟩ := of_check_eq_ok h
    obtain ⟨hlength, h⟩ := of_check_eq_ok h
    obtain ⟨hdot, hup, hslash⟩ : ¬ name = "." ∧ ¬ name = ".." ∧ p.endsWithSlash = false := by
      simpa only [not_or, Bool.not_eq_true] using hname
    have hnames : p.names.dropLast ++ [name] = p.names := by
      obtain ⟨front, hfront⟩ := List.getLast?_eq_some_iff.mp hlast?.symm
      rw [hfront, List.dropLast_concat]
    have hne : l ++ [name] ≠ [] := by simp
    -- The path leads to the place of its last name as soon as something is there.
    have hput : ∀ n, t.node? (l ++ [name]) ≠ some .directory →
        (t.put (l ++ [name]) n).locate p = .ok (l ++ [name]) := by
      intro n hnode
      have hgrows := grows_put hne hnode n
      have hthere : (t.put (l ++ [name]) n).node? (l ++ [name]) = some n := by
        rw [node?_put t hne, if_pos rfl]
      rw [locate_eq_walk _ hpath hslash, hgrows.start, ← hnames,
        walk_concat _ (hgrows.walk hwalk),
        step_of_name (hgrows.directory l hdirectory) hdot hup hlength, hthere]
      rfl
    have hbefore : t.locate p = t.step l name := by
      rw [locate_eq_walk t hpath hslash, ← hnames, walk_concat t hwalk]
    rw [step_of_name hdirectory hdot hup hlength] at hbefore
    cases hnode : t.node? (l ++ [name]) with
    | none =>
      rw [hnode] at h hbefore
      cases h
      have hnot : t.node? (l ++ [name]) ≠ some .directory := by
        rw [hnode]
        exact nofun
      exact ⟨l ++ [name], [], hne, rfl, hnot, hput _ hnot, .inr ⟨hbefore, hnode, rfl⟩⟩
    | some n =>
      rw [hnode] at h hbefore
      cases n with
      | directory => cases h
      | file old =>
        cases h
        have hnot : t.node? (l ++ [name]) ≠ some .directory := by
          rw [hnode]
          exact nofun
        have hcontent : t.content (l ++ [name]) = .ok old := by
          unfold content
          rw [hnode]
        exact ⟨l ++ [name], old, hne, rfl, hnot, hput _ hnot, .inl ⟨hbefore, hcontent⟩⟩

namespace Appends

variable {t u : FileTree} {p : Path} {data old : Bytes} {l : Location}

theorem grows (h : t.Appends u p data l old) : t.Grows u := by
  rw [h.put]
  exact grows_put h.ne h.node _

theorem content (h : t.Appends u p data l old) : u.content l = .ok (old ++ data) := by
  unfold FileTree.content
  rw [h.put, node?_put t h.ne, if_pos rfl]

/-- Every other file stays as it is. -/
theorem content_of_ne (h : t.Appends u p data l old) {m : Location} (hm : m ≠ l) :
    u.content m = t.content m := by
  unfold FileTree.content
  rw [h.put, node?_put t h.ne, if_neg hm]

end Appends

end Harvest.FileTree
