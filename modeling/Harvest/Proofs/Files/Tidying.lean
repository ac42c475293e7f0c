/-
  Harvest.Proofs.Files.Tidying

  Paths without the parts that make no difference. The directory of a file is named by the
  components of its path, so that slashes that are repeated and names that stand for the directory
  they are in are left out of it (`parent?_join`). What is left of a path is a part of its text
  (`sublist_tidied`), and leads where the path leads (`DirectoryAt.tidied`), so that a directory
  that is there is not made again (`DirectoryAt.makeDirectories_tidied`).
-/
import Harvest.Proofs.Files.Joining

namespace Harvest

/-- Texts that are left out of others with separators between them leave a part of the text. -/
theorem sublist_intercalate {α : Type} (separator : List α) {texts more : List (List α)}
    (h : texts.Sublist more) :
    (separator.intercalate texts).Sublist (separator.intercalate more) := by
  induction h with
  | slnil => exact .refl _
  | @cons texts more text h ih =>
    cases more with
    | nil =>
      rw [List.sublist_nil.mp h, List.intercalate_nil]
      exact List.nil_sublist _
    | cons next more =>
      rw [List.intercalate_cons_cons]
      exact ih.trans (List.sublist_append_right _ _)
  | @cons_cons texts more text h ih =>
    cases more with
    | nil =>
      obtain rfl := List.sublist_nil.mp h
      exact .refl _
    | cons next more =>
      rw [List.intercalate_cons_cons]
      cases texts with
      | nil =>
        rw [List.intercalate_singleton, List.append_assoc]
        exact List.sublist_append_left _ _
      | cons first texts =>
        rw [List.intercalate_cons_cons]
        exact ih.append_left _

namespace Path

/-! ## Pieces of a text -/

/-- Cutting a text at its slashes is what the library calls splitting it. -/
theorem pieces_eq_splitOn (s : List Char) : pieces s = s.splitOn '/' := by
  induction s with
  | nil => rfl
  | cons c s ih =>
    rw [pieces, ih, List.splitOn_cons_eq_if_modifyHead]
    by_cases hc : c = '/'
    · rw [if_pos hc, if_pos (beq_iff_eq.mpr hc)]
    · rw [if_neg hc, if_neg (by simpa using hc)]
      have hsome := List.splitOn_ne_nil '/' s
      cases hs : s.splitOn '/' with
      | nil => exact absurd hs hsome
      | cons p ps => rfl

theorem intercalate_pieces (s : List Char) : ['/'].intercalate (pieces s) = s := by
  rw [pieces_eq_splitOn]
  exact List.intercalate_splitOn '/'

theorem pieces_intercalate {texts : List (List Char)} (h : ∀ s ∈ texts, '/' ∉ s)
    (hsome : texts ≠ []) : pieces (['/'].intercalate texts) = texts := by
  rw [pieces_eq_splitOn]
  exact List.splitOn_intercalate '/' h hsome

theorem slash_notMem_of_mem_pieces {s piece : List Char} (h : piece ∈ pieces s) : '/' ∉ piece := by
  induction s generalizing piece with
  | nil =>
    rw [List.mem_singleton.mp h]
    exact List.not_mem_nil
  | cons c s ih =>
    rw [pieces] at h
    split at h
    · rcases List.mem_cons.mp h with rfl | hmem
      · exact List.not_mem_nil
      · exact ih hmem
    · next hc =>
      split at h
      · rw [List.mem_singleton.mp h, List.mem_singleton]
        exact Ne.symm hc
      · next first rest hs =>
        rw [hs] at ih
        rcases List.mem_cons.mp h with rfl | hmem
        · rw [List.mem_cons, not_or]
          exact ⟨Ne.symm hc, ih List.mem_cons_self⟩
        · exact ih (List.mem_cons_of_mem _ hmem)

/-! ## What is left of a path -/

/-- The path without the parts that make no difference. -/
def tidied (p : Path) : Path := ofComponents p.components

/-- The names of a path that make a difference, and a dot in front. -/
def plainNames (p : Path) : List String :=
  if p.isAbsolute then p.names.filter (· ≠ ".")
  else
    match p.names with
    | [] => []
    | name :: names => name :: names.filter (· ≠ ".")

section

variable {p : Path} {name : String}

/-- The texts of names are those between the slashes that are not empty. -/
theorem toList_names (p : Path) :
    p.names.map String.toList = (pieces p.text.toList).filter fun s => !s.isEmpty := by
  unfold names
  rw [List.map_map]
  exact (List.map_congr_left fun s _ => String.toList_ofList).trans (List.map_id _)

theorem mem_names (h : name ∈ p.names) : '/' ∉ name.toList ∧ name.toList ≠ [] := by
  have hmem := List.mem_map_of_mem (f := String.toList) h
  rw [toList_names, List.mem_filter] at hmem
  refine ⟨slash_notMem_of_mem_pieces hmem.1, ?_⟩
  simpa using hmem.2

theorem plainNames_sublist (p : Path) : p.plainNames.Sublist p.names := by
  unfold plainNames
  split
  · exact List.filter_sublist
  · cases p.names with
    | nil => exact .refl _
    | cons name names => exact List.filter_sublist.cons_cons name

theorem ofName_eq_current_iff : Component.ofName name = .current ↔ name = "." := by
  unfold Component.ofName
  split
  · next hdot => simp [hdot]
  · next hdot => split <;> simp [hdot]

theorem text_ofName (name : String) : Component.text (Component.ofName name) = name := by
  unfold Component.ofName
  split
  · next hdot => exact hdot.symm
  · split
    · next hup => exact hup.symm
    · rfl

theorem filter_ofName (names : List String) :
    (names.map Component.ofName).filter (· != .current) =
      (names.filter (· ≠ ".")).map Component.ofName := by
  rw [List.filter_map]
  congr 1
  apply List.filter_congr
  intro name _
  rw [Bool.eq_iff_iff]
  simp [ofName_eq_current_iff]

theorem components_eq (p : Path) :
    p.components =
      (if p.isAbsolute then [.root] else []) ++ p.plainNames.map Component.ofName := by
  unfold components plainNames
  by_cases habsolute : p.isAbsolute = true
  · simp only [habsolute, if_true, filter_ofName, List.singleton_append]
  · simp only [habsolute, Bool.false_eq_true, if_false, List.nil_append]
    cases p.names with
    | nil => rfl
    | cons name names => simp only [List.map_cons, filter_ofName]

/-- The text that is left: the names that make a difference with slashes between them, and a slash
    in front if the path begins at the root. -/
theorem toList_tidied (p : Path) :
    p.tidied.text.toList =
      (if p.isAbsolute then ['/'] else []) ++
        ['/'].intercalate (p.plainNames.map String.toList) := by
  have hmap : (p.plainNames.map Component.ofName).map Component.text = p.plainNames := by
    rw [List.map_map]
    exact (List.map_congr_left fun name _ => text_ofName name).trans (List.map_id _)
  unfold tidied
  rw [components_eq]
  by_cases habsolute : p.isAbsolute = true
  · simp only [habsolute, if_true, List.singleton_append]
    cases hnames : p.plainNames with
    | nil => rfl
    | cons name names =>
      rw [hnames] at hmap
      show (String.intercalate "/" ("" :: _)).toList = _
      rw [hmap, String.toList_intercalate, List.map_cons, List.map_cons,
        List.intercalate_cons_cons]
      rfl
  · simp only [habsolute, Bool.false_eq_true, if_false, List.nil_append]
    have hroot : p.plainNames.map Component.ofName ≠ [.root] := by
      intro h
      have hmem : Component.root ∈ p.plainNames.map Component.ofName := by simp [h]
      obtain ⟨name, -, hname⟩ := List.mem_map.mp hmem
      unfold Component.ofName at hname
      split at hname
      · cases hname
      · split at hname <;> cases hname
    unfold ofComponents
    split
    · next h => exact absurd h hroot
    · rw [hmap]
      exact String.toList_intercalate

/-- What is left is a part of the text. -/
theorem sublist_tidied (p : Path) : p.tidied.text.toList.Sublist p.text.toList := by
  have hnames : (p.plainNames.map String.toList).Sublist
      ((pieces p.text.toList).filter fun s => !s.isEmpty) := by
    rw [← toList_names]
    exact (plainNames_sublist p).map _
  rw [toList_tidied]
  by_cases habsolute : p.isAbsolute = true
  · -- The slash in front makes a piece of its own, which is empty.
    obtain ⟨rest, hrest⟩ : ∃ rest, p.text.toList = '/' :: rest := by
      have hhead : p.text.toList.head? = some '/' := beq_iff_eq.mp habsolute
      exact List.head?_eq_some_iff.mp hhead
    rw [hrest] at hnames ⊢
    have hpieces : pieces ('/' :: rest) = [] :: pieces rest := by rw [pieces, if_pos rfl]
    rw [hpieces, List.filter_cons_of_neg (by simp)] at hnames
    have hbody := sublist_intercalate ['/'] (hnames.trans List.filter_sublist)
    rw [intercalate_pieces] at hbody
    rw [if_pos habsolute]
    exact hbody.cons_cons '/'
  · have hbody := sublist_intercalate ['/'] (hnames.trans List.filter_sublist)
    rw [intercalate_pieces] at hbody
    rw [if_neg habsolute]
    exact hbody

theorem isAbsolute_tidied (p : Path) : p.tidied.isAbsolute = p.isAbsolute := by
  have htext := toList_tidied p
  unfold isAbsolute at htext ⊢
  rw [htext]
  by_cases habsolute : p.text.toList.head? == some '/'
  · rw [habsolute]
    rfl
  · rw [Bool.not_eq_true] at habsolute
    rw [habsolute, if_neg Bool.false_ne_true, List.nil_append, beq_eq_false_iff_ne]
    -- A path that does not begin at the root begins with a name, or is empty.
    cases hnames : p.plainNames with
    | nil => exact nofun
    | cons name names =>
      obtain ⟨hslash, hsome⟩ :=
        mem_names ((plainNames_sublist p).subset (hnames ▸ List.mem_cons_self))
      obtain ⟨c, cs, hchars⟩ := List.exists_cons_of_ne_nil hsome
      rw [List.map_cons, hchars]
      have hhead : (['/'].intercalate ((c :: cs) :: names.map String.toList)).head? = some c := by
        cases names with
        | nil => rfl
        | cons next names =>
          rw [List.map_cons, List.intercalate_cons_cons]
          rfl
      rw [hhead]
      rintro hc
      rw [Option.some.inj hc] at hchars
      exact hslash (by rw [hchars]; exact List.mem_cons_self)

/-- The names of what is left are those that make a difference. -/
theorem names_tidied (p : Path) : p.tidied.names = p.plainNames := by
  have hplain : ∀ s ∈ p.plainNames.map String.toList, '/' ∉ s ∧ s ≠ [] := by
    intro s hs
    obtain ⟨name, hname, rfl⟩ := List.mem_map.mp hs
    exact mem_names ((plainNames_sublist p).subset hname)
  have hpieces : (pieces (['/'].intercalate (p.plainNames.map String.toList))).filter
      (fun s => !s.isEmpty) = p.plainNames.map String.toList := by
    by_cases hnone : p.plainNames.map String.toList = []
    · rw [hnone]
      rfl
    · rw [pieces_intercalate (fun s hs => (hplain s hs).1) hnone]
      apply List.filter_eq_self.mpr
      intro s hs
      simpa using (hplain s hs).2
  have htext := toList_names p.tidied
  rw [toList_tidied] at htext
  have hlists : p.tidied.names.map String.toList = p.plainNames.map String.toList := by
    by_cases habsolute : p.isAbsolute = true
    · rw [if_pos habsolute, List.singleton_append, pieces, if_pos rfl,
        List.filter_cons_of_neg (by simp), hpieces] at htext
      exact htext
    · rw [if_neg habsolute, List.nil_append, hpieces] at htext
      exact htext
  exact (List.map_inj_right fun _ _ => String.toList_inj.mp).mp hlists

/-! ## The directory of a file -/

theorem plainNames_join (hslash : '/' ∉ name.toList) (hown : name ≠ "" ∧ name ≠ "." ∧ name ≠ "..") :
    (p.join name).plainNames = p.plainNames ++ [name] := by
  have hkept : [name].filter (· ≠ ".") = [name] := by simp [hown.2.1]
  unfold plainNames
  rw [isAbsolute_join hslash, names_join hslash hown.1]
  by_cases habsolute : p.isAbsolute = true
  · rw [if_pos habsolute, if_pos habsolute, List.filter_append, hkept]
  · rw [if_neg habsolute, if_neg habsolute]
    cases p.names with
    | nil => rfl
    | cons first names =>
      dsimp only [List.cons_append]
      rw [List.filter_append, hkept]

/-- The directory of a file in the directory of a path is what is left of the path. -/
theorem parent?_join (hslash : '/' ∉ name.toList) (hown : name ≠ "" ∧ name ≠ "." ∧ name ≠ "..") :
    (p.join name).parent? = some p.tidied := by
  have hname : Component.ofName name = .name name := by
    unfold Component.ofName
    rw [if_neg hown.2.1, if_neg hown.2.2]
  have hcomponents : (p.join name).components = p.components ++ [.name name] := by
    rw [components_eq, components_eq, isAbsolute_join hslash, plainNames_join hslash hown,
      List.map_append, List.map_singleton, hname, List.append_assoc]
  unfold parent?
  rw [hcomponents, List.reverse_concat]
  dsimp only
  rw [List.reverse_reverse]
  rfl

end

end Path

namespace FileTree

variable {t : FileTree} {p : Path} {name : String} {m : Location}

theorem checkPath_tidied (h : checkPath p = .ok ()) (hsome : p.tidied.text ≠ "") :
    checkPath p.tidied = .ok () := by
  obtain ⟨hnul, hshort, -⟩ := checkPath_eq_ok_iff.mp h
  have hsize := Utf8.size_le_of_sublist (Path.sublist_tidied p)
  refine checkPath_eq_ok_iff.mpr ⟨?_, by omega, hsome⟩
  exact fun hmem => hnul ((Path.sublist_tidied p).subset hmem)

/-- Names that stand for the directory they are in lead nowhere else. -/
theorem walk_filter_dots {l : Location} {names : List String} (h : t.walk l names = .ok m) :
    t.walk l (names.filter (· ≠ ".")) = .ok m := by
  induction names generalizing l with
  | nil => exact h
  | cons name names ih =>
    obtain ⟨k, hstep, hwalk⟩ := of_bind_eq_ok h
    have hrest := ih hwalk
    by_cases hdot : name = "."
    · have hsame : k = l := by
        rw [hdot] at hstep
        unfold step at hstep
        split at hstep
        · exact (Except.ok.inj hstep).symm
        · cases hstep
      rw [hsame] at hrest
      rw [List.filter_cons_of_neg (by simp [hdot])]
      exact hrest
    · rw [List.filter_cons_of_pos (by simp [hdot])]
      exact (bind_of_ok hstep _).trans hrest

namespace DirectoryAt

/-- What is left of a path leads to the directory that the path leads to. -/
theorem tidied (h : t.DirectoryAt p m) : t.DirectoryAt p.tidied m where
  walk := by
    have hstart : t.start p.tidied = t.start p := by
      unfold start
      rw [Path.isAbsolute_tidied]
    rw [hstart, Path.names_tidied]
    have hwalk := h.walk
    unfold Path.plainNames
    by_cases habsolute : p.isAbsolute = true
    · rw [if_pos habsolute]
      exact walk_filter_dots hwalk
    · rw [if_neg habsolute]
      cases hnames : p.names with
      | nil =>
        rw [hnames] at hwalk
        exact hwalk
      | cons name names =>
        rw [hnames] at hwalk
        obtain ⟨k, hstep, hrest⟩ := of_bind_eq_ok hwalk
        exact (bind_of_ok hstep _).trans (walk_filter_dots hrest)
  directory := h.directory

/-- The directory of a file is not made again. -/
theorem makeDirectories_tidied (h : t.DirectoryAt p m) (hname : p.CanName name) :
    t.makeDirectories p.tidied = (.ok (), t) := by
  by_cases hnone : p.tidied.text = ""
  · unfold FileTree.makeDirectories makeDirectoriesFrom
    rw [if_pos hnone]
  · have hsome : p.text ≠ "" := by
      intro hp
      have hsublist := Path.sublist_tidied p
      rw [hp] at hsublist
      exact hnone (String.toList_eq_nil_iff.mp (List.sublist_nil.mp hsublist))
    exact h.tidied.makeDirectories (checkPath_tidied (checkPath_of_join hsome hname) hnone)

end DirectoryAt

end FileTree

end Harvest
