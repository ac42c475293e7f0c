/-
  Harvest.Proofs.Backend.Source

  Files of records as the source of a job. A backend reads a source if a fetch gives the records
  that are wanted, in order, and may only be cut short by an archive. The backend for files of
  records does so, whatever the disk makes of what it archives (`Lines.backend_reads`).
-/
import Harvest.Proofs.Backend.ResumePoint

namespace Harvest

/-! ## Sources -/

/-- A file of records. Positions in a file are numbers of sixty-four bits. -/
structure Source where
  path : String
  place : Location
  content : Bytes
  fits : content.length ≤ Number.greatestSigned64

namespace Source

/-- The path of a source leads to it. -/
structure In (source : Source) (files : FileTree) : Prop where
  located : files.locate ⟨source.path⟩ = .ok source.place
  content : files.content source.place = .ok source.content

/-- What a fetch looks for in a source; nothing is archived. -/
def task (source : Source) (filters : Filters) : Lines.Task :=
  ⟨source.path, recordCategory, filters, none⟩

/-- The results of a source with filters. -/
def records (source : Source) (filters : Filters) : List (Except BackendError Item) :=
  Lines.results (source.task filters) 0 (linesOf source.content)

/-- A source has no more lines than can be numbered. -/
theorem lines_fit (source : Source) :
    (0 : Int) + (linesOf source.content).length ≤ Number.greatestSigned64 := by
  have hlength := length_linesOf_le source.content
  have hfits := source.fits
  omega

theorem offsets_of_records (source : Source) (filters : Filters) :
    ∃ offsets : List Int, (goods (source.records filters)).map Item.offset? =
      offsets.map some ∧ (∀ n ∈ offsets, 0 < n) ∧ offsets.Pairwise (· < ·) :=
  Lines.offsets_of_goods (Int.le_refl 0) source.lines_fit

/-- A record has an offset, which is that of a line behind it. -/
theorem offset_of_mem_records (source : Source) (filters : Filters) {i : Item}
    (h : i ∈ goods (source.records filters)) : ∃ n, i.offset? = some n ∧ 0 < n := by
  obtain ⟨offsets, hoffsets, hpos, -⟩ := source.offsets_of_records filters
  have hi : i.offset? ∈ (goods (source.records filters)).map Item.offset? :=
    List.mem_map_of_mem h
  rw [hoffsets] at hi
  obtain ⟨n, hn, heq⟩ := List.mem_map.mp hi
  exact ⟨n, heq.symm, hpos n hn⟩

theorem wants_of_records (source : Source) (filters : Filters) :
    ∀ i ∈ goods (source.records filters), filters.Wants i := by
  intro i hi
  have hpos : (0 : Int) ≤ 0 := Int.le_refl 0
  have hwants : (source.task filters).filters.Wants i :=
    Lines.wants_of_mem_goods hpos source.lines_fit i hi
  exact hwants

/-- A fetch that starts from the offset of a record, and wants no more than an earlier one did,
    gives those of the records behind it that it wants, and ends as the earlier one does. -/
theorem records_from {source : Source} {filters f : Filters} {front rest : List Item} {i : Item}
    (hall : goods (source.records filters) = front ++ i :: rest)
    (hoffset : i.offset? = some f.offset)
    (hnarrow : ∀ i, filters.skipsItem i = true → f.skipsItem i = true) :
    goods (source.records f) = rest.filter (fun i => !f.skipsItem i) ∧
      ending (source.records f) = ending (source.records filters) := by
  obtain ⟨results, hresults, hgoods, hending⟩ := split_of_goods hall
  have hrecords : source.records f = results.filter f.keeps :=
    Lines.results_resumed hresults hoffset hnarrow
  have hshaped : ∀ i, .ok i ∈ results → ∃ next, Record.Shaped next i := by
    intro i hi
    have hmem : .ok i ∈ source.records filters := by
      rw [hresults]
      exact List.mem_append_right _ (List.mem_cons_of_mem _ hi)
    exact Lines.shaped_of_mem_results hmem
  obtain ⟨hgoods', hending'⟩ := goods_filter hshaped
  rw [hrecords, hgoods', hending', hgoods, hending]
  exact ⟨rfl, rfl⟩

end Source

/-- Whether records are archived makes no difference to what the lines give. -/
theorem Lines.results_archive (origin category : String) (filters : Filters)
    (archive : Option Archive) (number : Int) (lines : List Bytes) :
    results ⟨origin, category, filters, archive⟩ number lines =
      results ⟨origin, category, filters, none⟩ number lines := by
  induction lines generalizing number with
  | nil => rfl
  | cons line lines ih =>
    have hline : readLine ⟨origin, category, filters, archive⟩ number line =
        readLine ⟨origin, category, filters, none⟩ number line := rfl
    unfold results
    rw [hline, ih]

/-! ## Backends that read a source -/

/-- A backend that reads sources: a fetch is refused if its filters are, and otherwise gives
    the records that are wanted. -/
structure Backend.ReadsSources {β : Type} (b : Backend β) : Prop where
  yields : ∀ {κ : Type} {I : Store κ → Prop} {args : Fields} {source : Source}
    {filters : Filters} {archive : Option Archive} {env : Env β} {own : κ},
    requiredPath args = .ok source.path → Filters.ofArgs args = .ok filters →
    Lines.Stays I source.place source.content recordCategory archive → source.In env.files →
    I ⟨env.files, own⟩ →
    ∃ items : Items β, b.fetch recordCategory args archive env = (.ok items, env) ∧
      (items env).Yields I archive.isSome own (source.records filters)
  refused : ∀ {args : Fields} {path : String} {e : BackendError} (archive : Option Archive)
    (env : Env β), requiredPath args = .ok path → Filters.ofArgs args = .error e →
    b.fetch recordCategory args archive env = (.error e, env)

/-- The backend for files of records reads sources, on any disk. -/
theorem Lines.backend_reads {β : Type} (disk : Disk β) : (Lines.backend disk).ReadsSources where
  yields := by
    intro κ I args source filters archive env own hpath hfilters hstays hsource hstore
    obtain ⟨items, hfetch, hyields⟩ :=
      fetch_yields hpath hfilters hstays hsource.located hstore disk
    rw [results_archive] at hyields
    refine ⟨items, ?_, hyields⟩
    show (fetch recordCategory args archive env disk, env) = _
    rw [hfetch]
  refused := by
    intro args path e archive env hpath hfilters
    show (fetch recordCategory args archive env disk, env) = _
    rw [fetch_of_refused hpath hfilters]

end Harvest
