/-
  Harvest.Proofs.Files.Joining

  Files in a directory. The path of a name in the directory of a path has the names of that path
  and the name behind them (`names_join`), so that it leads where the name leads from the directory
  (`DirectoryAt.locate_join`). Appending to such a file puts it into the directory and leaves the
  others (`append_join`, and `DirectoryAt.append_join` where it can be done), and making a directory
  that is there already changes nothing (`makeDirectories_of_locate`).
-/
import Harvest.Proofs.Files.Gathering

namespace Harvest

/-! ## Octets of a text -/

theorem Utf8.size_append (cs ds : List Char) : size (cs ++ ds) = size cs + size ds := by
  rw [← length_encode, encode_append, List.length_append, length_encode, length_encode]

theorem Utf8.size_le_of_sublist {cs ds : List Char} (h : cs.Sublist ds) : size cs ≤ size ds := by
  induction h with
  | slnil => exact Nat.le_refl _
  | cons c h ih =>
    simp only [size]
    omega
  | cons_cons c h ih =>
    simp only [size]
    omega

/-! ## Names of a path -/

namespace Path

/-- Pieces are cut at a slash, wherever it is. -/
theorem pieces_append_slash (s t : List Char) : pieces (s ++ '/' :: t) = pieces s ++ pieces t := by
  induction s with
  | nil => simp [pieces]
  | cons c s ih =>
    rw [List.cons_append, pieces, pieces]
    by_cases hc : c = '/'
    · rw [if_pos hc, if_pos hc, ih, List.cons_append]
    · rw [if_neg hc, if_neg hc, ih]
      cases hs : pieces s with
      | nil =>
        cases s with
        | nil => simp [pieces] at hs
        | cons d s =>
          rw [pieces] at hs
          split at hs
          · cases hs
          · split at hs <;> cases hs
      | cons p ps => rfl

theorem pieces_of_slash_notMem {s : List Char} (h : '/' ∉ s) : pieces s = [s] := by
  induction s with
  | nil => rfl
  | cons c s ih =>
    rw [List.mem_cons, not_or] at h
    rw [pieces, if_neg (Ne.symm h.1), ih h.2]

section

variable {p : Path} {name : String}

theorem not_isAbsolute_of_slash_notMem (hslash : '/' ∉ name.toList) :
    ¬ isAbsolute ⟨name⟩ = true := by
  intro habsolute
  have hhead : name.toList.head? = some '/' := beq_iff_eq.mp habsolute
  exact hslash (List.mem_of_mem_head? hhead)

/-- An empty path is that of the working directory, in which a name is its own path. -/
theorem join_of_empty (hp : p.text = "") (hslash : '/' ∉ name.toList) : p.join name = ⟨name⟩ := by
  unfold join
  rw [if_neg (not_isAbsolute_of_slash_notMem hslash), if_pos (.inl hp), hp, String.empty_append]

/-- A name without slashes is put behind the path, with a slash between them if there is none. -/
theorem join_text (hp : p.text ≠ "") (hslash : '/' ∉ name.toList) :
    ∃ front, (p.join name).text.toList = front ++ '/' :: name.toList ∧
      (p.text.toList = front ∨ p.text.toList = front ++ ['/']) := by
  -- Only an absolute name would take the place of the path.
  unfold join
  rw [if_neg (not_isAbsolute_of_slash_notMem hslash)]
  by_cases hends : p.text = "" ∨ p.endsWithSlash = true
  · rw [if_pos hends]
    have hlast : p.text.toList.getLast? = some '/' := beq_iff_eq.mp (hends.resolve_left hp)
    obtain ⟨front, hfront⟩ := List.getLast?_eq_some_iff.mp hlast
    refine ⟨front, ?_, .inr hfront⟩
    simp [hfront]
  · rw [if_neg hends]
    exact ⟨p.text.toList, by simp, .inl rfl⟩

/-- The names of a file in the directory of a path. -/
theorem names_join (hslash : '/' ∉ name.toList) (hname : name ≠ "") :
    (p.join name).names = p.names ++ [name] := by
  have hnonempty : name.toList.isEmpty = false := by
    rw [List.isEmpty_eq_false_iff]
    intro hnone
    exact hname (String.toList_eq_nil_iff.mp hnone)
  by_cases hp : p.text = ""
  · rw [join_of_empty hp hslash]
    unfold names
    rw [hp, pieces_of_slash_notMem hslash]
    simp [pieces, hnonempty]
  obtain ⟨front, hjoined, hfront⟩ := join_text hp hslash
  have hnames : p.names = ((pieces front).filter fun s => !s.isEmpty).map String.ofList := by
    unfold names
    rcases hfront with hfront | hfront
    · rw [hfront]
    · rw [hfront, pieces_append_slash, List.filter_append]
      simp [pieces]
  rw [hnames]
  unfold names
  rw [hjoined, pieces_append_slash, pieces_of_slash_notMem hslash, List.filter_append,
    List.map_append]
  simp [hnonempty]

theorem isAbsolute_join (hslash : '/' ∉ name.toList) :
    (p.join name).isAbsolute = p.isAbsolute := by
  by_cases hp : p.text = ""
  · rw [join_of_empty hp hslash, Bool.eq_false_iff.mpr (not_isAbsolute_of_slash_notMem hslash)]
    unfold isAbsolute
    rw [hp]
    rfl
  obtain ⟨front, hjoined, hfront⟩ := join_text hp hslash
  unfold isAbsolute
  rw [hjoined]
  rcases hfront with hfront | hfront
  · rw [hfront]
    cases front with
    | nil => exact absurd (String.toList_eq_nil_iff.mp hfront) hp
    | cons c front => rfl
  · rw [hfront]
    cases front with
    | nil => rfl
    | cons c front => rfl

theorem endsWithSlash_join (hslash : '/' ∉ name.toList) (hname : name ≠ "") :
    (p.join name).endsWithSlash = false := by
  have hsome : name.toList ≠ [] := fun hnone => hname (String.toList_eq_nil_iff.mp hnone)
  -- Whatever is in front of the name, the path ends as the name does.
  obtain ⟨front, hjoined⟩ : ∃ front, (p.join name).text.toList = front ++ name.toList := by
    by_cases hp : p.text = ""
    · exact ⟨[], by rw [join_of_empty hp hslash, List.nil_append]⟩
    · obtain ⟨front, hjoined, -⟩ := join_text hp hslash
      exact ⟨front ++ ['/'], by rw [hjoined, List.append_cons]⟩
  unfold endsWithSlash
  rw [hjoined, beq_eq_false_iff_ne, List.getLast?_append,
    List.getLast?_eq_some_getLast hsome, Option.some_or]
  intro hlast
  have hmem := List.getLast_mem hsome
  rw [Option.some.inj hlast] at hmem
  exact hslash hmem

/-- The name of a file with an extension is one of its own. -/
theorem fileName_own (c : String) :
    c ++ ".jsonl" ≠ "" ∧ c ++ ".jsonl" ≠ "." ∧ c ++ ".jsonl" ≠ ".." := by
  have hlength : 6 ≤ (c ++ ".jsonl").toList.length := by simp
  refine ⟨?_, ?_, ?_⟩ <;> intro h <;> rw [h] at hlength <;> exact absurd hlength (by decide)

theorem slash_notMem_fileName {c : String} (h : '/' ∉ c.toList) : '/' ∉ (c ++ ".jsonl").toList := by
  simpa using h

theorem fileName_injective {c d : String} (h : c ++ ".jsonl" = d ++ ".jsonl") : c = d := by
  have hlists := congrArg String.toList h
  rw [String.toList_append, String.toList_append, List.append_left_inj] at hlists
  exact String.toList_inj.mp hlists

/-- A name that a file in the directory of a path may have. -/
structure CanName (p : Path) (name : String) : Prop where
  slash : '/' ∉ name.toList
  own : name ≠ "" ∧ name ≠ "." ∧ name ≠ ".."
  short : Utf8.size name.toList ≤ FileTree.longestName
  path : FileTree.checkPath (p.join name) = .ok ()

end

end Path

/-! ## Files of a directory -/

namespace FileTree

variable {t u : FileTree} {p : Path} {name : String} {m : Location}

theorem checkPath_eq_ok_iff :
    checkPath p = .ok () ↔
      '\x00' ∉ p.text.toList ∧ Utf8.size p.text.toList < pathLimit ∧ p.text ≠ "" := by
  unfold checkPath
  by_cases hnul : p.text.toList.contains '\x00' = true
  · simp [List.contains_iff_mem.mp hnul]
  · rw [if_neg hnul]
    have hmem : '\x00' ∉ p.text.toList := fun h => hnul (List.contains_iff_mem.mpr h)
    by_cases hlong : pathLimit ≤ Utf8.size p.text.toList
    · simp [hlong, Nat.not_lt.mpr hlong]
    · rw [if_neg hlong]
      by_cases hnone : p.text = ""
      · simp [hnone]
      · simp [hnone, hmem, Nat.lt_of_not_le hlong]

/-- A name without slashes and NULs that is not too long is one that a file may have, if the path
    of its directory leaves room for it. -/
theorem canName_fileName (hslash : '/' ∉ name.toList) (hnul : '\x00' ∉ name.toList)
    (hshort : Utf8.size (name ++ ".jsonl").toList ≤ longestName) (hp : '\x00' ∉ p.text.toList)
    (hroom : Utf8.size p.text.toList + 1 + longestName < pathLimit) :
    p.CanName (name ++ ".jsonl") := by
  have hfile : '\x00' ∉ (name ++ ".jsonl").toList := by simpa using hnul
  have hown := Path.fileName_own name
  refine ⟨Path.slash_notMem_fileName hslash, hown, hshort, checkPath_eq_ok_iff.mpr ?_⟩
  by_cases hnone : p.text = ""
  · rw [Path.join_of_empty hnone (Path.slash_notMem_fileName hslash)]
    have hlimit : Utf8.size (name ++ ".jsonl").toList < pathLimit := by omega
    exact ⟨hfile, hlimit, hown.1⟩
  · obtain ⟨front, hjoined, hfront⟩ := Path.join_text hnone (Path.slash_notMem_fileName hslash)
    have hpart : front.Sublist p.text.toList := by
      rcases hfront with rfl | hfront
      · exact .refl _
      · rw [hfront]
        exact List.sublist_append_left _ _
    have hsize := Utf8.size_le_of_sublist hpart
    refine ⟨?_, ?_, ?_⟩
    · rw [hjoined, List.mem_append, List.mem_cons, not_or, not_or]
      exact ⟨fun hmem => hp (hpart.subset hmem), by decide, hfile⟩
    · have hslashSize : Char.utf8Size '/' = 1 := rfl
      rw [hjoined, Utf8.size_append, Utf8.size, hslashSize]
      omega
    · intro hempty
      rw [hempty] at hjoined
      exact List.append_ne_nil_of_right_ne_nil _ (List.cons_ne_nil _ _) hjoined.symm

/-- If a name in the directory of a path may be used, so may the path. -/
theorem checkPath_of_join (hp : p.text ≠ "") (h : p.CanName name) : checkPath p = .ok () := by
  obtain ⟨hnul, hlong, -⟩ := checkPath_eq_ok_iff.mp h.path
  obtain ⟨back, hback⟩ : p.text.toList <+: (p.join name).text.toList := by
    obtain ⟨front, hjoined, hfront | hfront⟩ := Path.join_text hp h.slash
    · rw [hjoined, hfront]
      exact List.prefix_append _ _
    · rw [hjoined, hfront]
      exact ⟨name.toList, (List.append_cons front '/' name.toList).symm⟩
  rw [← hback] at hnul hlong
  rw [Utf8.size_append] at hlong
  refine checkPath_eq_ok_iff.mpr ⟨?_, by omega, hp⟩
  exact fun hmem => hnul (List.mem_append_left _ hmem)

/-- A path that leads to a directory may end with a slash or not. -/
theorem locate_of_walk (hpath : checkPath p = .ok ())
    (hwalk : t.walk (t.start p) p.names = .ok m) (hdirectory : t.node? m = some .directory) :
    t.locate p = .ok m := by
  unfold locate
  refine (bind_of_ok hpath _).trans ?_
  refine (bind_of_ok hwalk _).trans ?_
  show (if (p.endsWithSlash && t.node? m != some .directory) = true then _ else _) = _
  rw [hdirectory, bne_self_eq_false, Bool.and_false]
  rfl

theorem start_join (hslash : '/' ∉ name.toList) :
    t.start (p.join name) = t.start p := by
  unfold start
  rw [Path.isAbsolute_join hslash]

/-- The path of a name in a directory leads along the path, and then to the name. -/
theorem locate_join_eq_walk (h : p.CanName name) :
    t.locate (p.join name) = t.walk (t.start p) (p.names ++ [name]) := by
  have hname := h.own.1
  rw [locate_eq_walk t h.path (Path.endsWithSlash_join h.slash hname), start_join h.slash,
    Path.names_join h.slash hname]

/-- If a path leads nowhere, neither does that of a name in its directory. -/
theorem locate_join_of_missing (h : p.CanName name)
    (hmissing : t.walk (t.start p) p.names = .error .notFound) :
    t.locate (p.join name) = .error .notFound := by
  rw [locate_join_eq_walk h]
  unfold walk at hmissing ⊢
  rw [List.foldlM_append]
  exact bind_of_error hmissing _

/-- A walk that ends with a name leads to a directory first, and the name leads on from there. -/
theorem walk_concat_eq_ok {l : Location} {names : List String}
    (h : t.walk l (names ++ [name]) = .ok m) :
    ∃ k, t.walk l names = .ok k ∧ t.step k name = .ok m := by
  unfold walk at h ⊢
  rw [List.foldlM_append] at h
  obtain ⟨k, hk, h⟩ := of_bind_eq_ok h
  obtain ⟨m', hstep, h⟩ := of_bind_eq_ok h
  cases h
  exact ⟨k, hk, hstep⟩

theorem step_eq_ok {l : Location} (h : t.step l name = .ok m) :
    t.node? l = some .directory ∧ (name = "." ∨ name = ".." ∨
      ¬ longestName < Utf8.size name.toList ∧ (t.node? (l ++ [name])).isSome = true) := by
  unfold step at h
  split at h
  · next hdirectory =>
    refine ⟨hdirectory, ?_⟩
    split at h
    · next hdot => exact .inl hdot
    · split at h
      · next hup => exact .inr (.inl hup)
      · split at h
        · cases h
        · next hshort =>
          split at h
          · cases h
          · next hthere =>
            exact .inr (.inr ⟨hshort, by simpa [Option.isSome_iff_ne_none] using hthere⟩)
  · cases h

/-- What a path leads to is where its names lead. -/
theorem locate_eq_ok (h : t.locate p = .ok m) :
    checkPath p = .ok () ∧ t.walk (t.start p) p.names = .ok m := by
  obtain ⟨u, hpath, h⟩ := of_bind_eq_ok h
  obtain ⟨k, hwalk, h⟩ := of_bind_eq_ok h
  obtain ⟨-, h⟩ := of_check_eq_ok h
  cases h
  exact ⟨hpath, hwalk⟩

/-- A path that may be used leads to nothing where one of its names does. -/
theorem walk_of_missing (hpath : checkPath p = .ok ()) (h : t.locate p = .error .notFound) :
    t.walk (t.start p) p.names = .error .notFound := by
  cases hwalk : t.walk (t.start p) p.names with
  | error f =>
    unfold locate at h
    rw [hpath, hwalk] at h
    exact h
  | ok m =>
    have hslash : (if (p.endsWithSlash && t.node? m != some .directory) = true then
        throw FileFault.notDirectory else pure m) = Except.error FileFault.notFound := by
      unfold locate at h
      rw [hpath, hwalk] at h
      exact h
    split at hslash <;> cases hslash

/-- A name that leads to a file in a directory is one that it may have. -/
theorem canName_of_locate (hslash : '/' ∉ name.toList)
    (hown : name ≠ "" ∧ name ≠ "." ∧ name ≠ "..") (h : t.locate (p.join name) = .ok m) :
    p.CanName name := by
  obtain ⟨hpath, hwalk⟩ := locate_eq_ok h
  rw [Path.names_join hslash hown.1] at hwalk
  -- The last step tells that the name is not too long.
  obtain ⟨k, -, hstep⟩ := walk_concat_eq_ok hwalk
  obtain ⟨-, hthere⟩ := step_eq_ok hstep
  obtain ⟨hshort, -⟩ := (hthere.resolve_left hown.2.1).resolve_left hown.2.2
  exact ⟨hslash, hown, Nat.le_of_not_lt hshort, hpath⟩

/-- What is appended to a file of a directory is put into the directory. -/
theorem append_join {data : Bytes} (h : p.CanName name)
    (happend : t.append (p.join name) data = .ok u) :
    ∃ m old, t.walk (t.start p) p.names = .ok m ∧ t.node? m = some .directory ∧
      t.node? (m ++ [name]) ≠ some .directory ∧
      u = t.put (m ++ [name]) (.file (old ++ data)) := by
  obtain ⟨⟨m, last?⟩, hlast, happend⟩ := of_bind_eq_ok happend
  obtain ⟨-, hwalk, hdirectory, hlast?⟩ := locateLast_eq_ok hlast
  rw [Path.names_join h.slash h.own.1, List.getLast?_concat] at hlast?
  rw [Path.names_join h.slash h.own.1, List.dropLast_concat, start_join h.slash] at hwalk
  cases hlast?
  obtain ⟨-, happend⟩ := of_check_eq_ok happend
  obtain ⟨-, happend⟩ := of_check_eq_ok happend
  cases hnode : t.node? (m ++ [name]) with
  | none =>
    rw [hnode] at happend
    cases happend
    exact ⟨m, [], hwalk, hdirectory, by rw [hnode]; exact nofun, rfl⟩
  | some n =>
    rw [hnode] at happend
    cases n with
    | directory => cases happend
    | file old =>
      cases happend
      exact ⟨m, old, hwalk, hdirectory, by rw [hnode]; exact nofun, rfl⟩

/-- A directory that is there already is not made. -/
theorem makeDirectory_of_walk (hpath : checkPath p = .ok ())
    (hwalk : t.walk (t.start p) p.names = .ok m) (hdirectory : t.node? m = some .directory) :
    t.makeDirectory p = .error .alreadyExists := by
  unfold makeDirectory
  -- The path is that of the root or of the working directory, or its last name is there already.
  rcases List.eq_nil_or_concat p.names with hnames | ⟨front, last, hnames⟩
  · have hstart : t.start p = m := by
      rw [hnames] at hwalk
      exact Except.ok.inj hwalk
    have hlast : t.locateLast p = .ok (m, none) := by
      unfold locateLast
      refine (bind_of_ok hpath _).trans ?_
      rw [hnames, hstart]
      refine (bind_of_ok rfl _).trans ?_
      rw [hdirectory]
      rfl
    exact (bind_of_ok hlast _).trans rfl
  · rw [List.concat_eq_append] at hnames
    rw [hnames] at hwalk
    obtain ⟨k, hk, hstep⟩ := walk_concat_eq_ok hwalk
    obtain ⟨habove, hthere⟩ := step_eq_ok hstep
    have hlast : t.locateLast p = .ok (k, some last) := by
      unfold locateLast
      refine (bind_of_ok hpath _).trans ?_
      rw [hnames, List.dropLast_concat, List.getLast?_concat]
      refine (bind_of_ok hk _).trans ?_
      rw [habove]
      rfl
    refine (bind_of_ok hlast _).trans ?_
    dsimp only
    by_cases hown : last = "." ∨ last = ".."
    · rw [if_pos hown]
      rfl
    · rw [not_or] at hown
      obtain ⟨hshort, hsome⟩ := (hthere.resolve_left hown.1).resolve_left hown.2
      obtain ⟨n, hn⟩ := Option.isSome_iff_exists.mp hsome
      rw [if_neg (not_or.mpr hown), if_neg hshort, hn]
      rfl

/-- Making a directory that is there already changes nothing. -/
theorem makeDirectories_of_locate (hlocate : t.locate p = .ok m)
    (hdirectory : t.node? m = some .directory) : t.makeDirectories p = (.ok (), t) := by
  obtain ⟨hpath, hwalk⟩ := locate_eq_ok hlocate
  have hthere : t.isDirectory p = true := by
    unfold isDirectory
    rw [hlocate]
    dsimp only
    rw [hdirectory, beq_self_eq_true]
  unfold makeDirectories makeDirectoriesFrom
  by_cases hnone : p.text = ""
  · rw [if_pos hnone]
  · rw [if_neg hnone, makeDirectory_of_walk hpath hwalk hdirectory]
    dsimp only
    rw [if_pos hthere]

/-! ## Where a directory is -/

/-- A path leads to a directory at a place. -/
structure DirectoryAt (t : FileTree) (p : Path) (m : Location) : Prop where
  walk : t.walk (t.start p) p.names = .ok m
  directory : t.node? m = some .directory

namespace DirectoryAt

theorem of_locate (h : t.locate p = .ok m) (hdirectory : t.node? m = some .directory) :
    t.DirectoryAt p m := ⟨(locate_eq_ok h).2, hdirectory⟩

theorem grows (h : t.DirectoryAt p m) (hgrows : t.Grows u) : u.DirectoryAt p m where
  walk := by
    rw [hgrows.start]
    exact hgrows.walk h.walk
  directory := hgrows.directory m h.directory

/-- What a name in the directory leads to. -/
theorem locate_join (h : t.DirectoryAt p m) (hname : p.CanName name) :
    t.locate (p.join name) =
      if (t.node? (m ++ [name])).isNone = true then .error .notFound else .ok (m ++ [name]) := by
  obtain ⟨-, hdot, hup⟩ := hname.own
  rw [locate_join_eq_walk hname, walk_concat t h.walk,
    step_of_name h.directory hdot hup (Nat.not_lt.mpr hname.short)]

/-- What is appended to a file of the directory is put behind what the file holds. -/
theorem append_join (h : t.DirectoryAt p m) (hname : p.CanName name)
    (hnode : t.node? (m ++ [name]) ≠ some .directory) (data : Bytes) :
    t.append (p.join name) data =
      .ok (t.put (m ++ [name]) (.file (t.octets (m ++ [name]) ++ data))) := by
  have hlast : t.locateLast (p.join name) = .ok (m, some name) := by
    unfold locateLast
    refine (bind_of_ok hname.path _).trans ?_
    rw [start_join hname.slash, Path.names_join hname.slash hname.own.1, List.dropLast_concat,
      List.getLast?_concat]
    refine (bind_of_ok h.walk _).trans ?_
    rw [h.directory]
    rfl
  have hends := Path.endsWithSlash_join (p := p) hname.slash hname.own.1
  have hown : ¬ (name = "." ∨ name = ".." ∨ (p.join name).endsWithSlash = true) := by
    rw [hends]
    simp [hname.own.2]
  unfold append
  refine (bind_of_ok hlast _).trans ?_
  dsimp only
  rw [if_neg hown, if_neg (Nat.not_lt.mpr hname.short)]
  cases hthere : t.node? (m ++ [name]) with
  | none =>
    rw [octets_of_absent hthere]
    rfl
  | some n =>
    cases n with
    | directory => exact absurd hthere hnode
    | file old =>
      have hcontent : t.content (m ++ [name]) = .ok old := by
        unfold content
        rw [hthere]
      rw [octets_of_content hcontent]
      rfl

/-- A directory that is there is not made again. -/
theorem makeDirectories (h : t.DirectoryAt p m) (hpath : checkPath p = .ok ()) :
    t.makeDirectories p = (.ok (), t) :=
  makeDirectories_of_locate (locate_of_walk hpath h.walk h.directory) h.directory

end DirectoryAt

end FileTree

end Harvest
