/-
  Harvest.Proofs.Json.TooDeep

  Values that nest deeper than a reader goes. What stands in front of the first part that is too
  deep is read, and then the reader gives up: the value is refused, whatever is behind that part
  (`readValue_tooDeep`). Objects are met by the lemma for whatever reads a field
  (`readFields_givesUp`), so that it serves records, too, and objects whose fields are in any order
  (`readValue_fields`). Whatever the text is, what is read from it nests no deeper than the reader
  goes (`depth_le_of_readValue`).
-/
import Harvest.Proofs.Json.Parsed

namespace Harvest.Json

/-- A reader that gave up at a part that is too deep. -/
def GivesUp {α : Type} (result : Except Fault α) : Prop :=
  ∃ left, result = .error (.next .tooDeep left)

theorem GivesUp.bind {α γ : Type} {result : Except Fault α} (h : GivesUp result)
    (next : α → Except Fault γ) : GivesUp (result >>= next) := by
  obtain ⟨left, rfl⟩ := h
  exact ⟨left, rfl⟩

/-- A reader gives up at the text of a value. -/
def Refuses (value : Reader Json) (v : Json) : Prop :=
  ∀ rest, EndsNumber rest → GivesUp (value (v.chars ++ rest))

/-! ## Arrays -/

section

variable {item : Reader Json}

/-- From the first one of some items on, a reader of an array gives up if one of them is refused
    and those in front of it are taken. -/
theorem readItems_givesUp_from {v : Json} {vs : List Json} (hback : ∀ w ∈ v :: vs, w.Readable)
    (hread : ∀ w ∈ v :: vs, Takes item w ∨ Refuses item w)
    (hsome : ∃ w ∈ v :: vs, Refuses item w) {fuel : Nat} (hfuel : vs.length < fuel) {first : Bool}
    {cs rest : List Char}
    (hstart : readItemStart first cs = .ok (true, v.chars ++ (moreItems vs ++ ']' :: rest))) :
    GivesUp (readItems item fuel first cs) := by
  -- The induction is on the items behind the first one: how that one was begun, by the bracket or
  -- by a comma, makes no difference.
  induction vs generalizing v fuel first cs with
  | nil =>
    obtain ⟨spare, rfl⟩ : ∃ spare, fuel = spare + 1 := ⟨fuel - 1, by omega⟩
    obtain ⟨w, hw, hrefuses⟩ := hsome
    rw [List.mem_singleton.mp hw] at hrefuses
    unfold readItems
    rw [bind_of_ok hstart]
    exact (hrefuses _ (endsNumber_moreItems [] rest)).bind _
  | cons next vs ih =>
    obtain ⟨spare, rfl⟩ : ∃ spare, fuel = spare + 1 := ⟨fuel - 1, by omega⟩
    have hends := endsNumber_moreItems (next :: vs) rest
    unfold readItems
    rw [bind_of_ok hstart]
    by_cases hrefuses : Refuses item v
    · exact (hrefuses _ hends).bind _
    · -- The item is read, and the one that is refused is behind it.
      have htakes := (hread v List.mem_cons_self).resolve_right hrefuses
      have hothers : ∃ w ∈ next :: vs, Refuses item w := by
        obtain ⟨w, hw, hw'⟩ := hsome
        rcases List.mem_cons.mp hw with rfl | hw
        · exact absurd hw' hrefuses
        · exact ⟨w, hw, hw'⟩
      have hback' : ∀ w ∈ next :: vs, w.Readable := fun w hw => hback w (List.mem_cons_of_mem v hw)
      have hrest := ih hback' (fun w hw => hread w (List.mem_cons_of_mem v hw)) hothers
        (by simpa using hfuel) (readItemStart_more (hback' next List.mem_cons_self) vs rest)
      dsimp only
      rw [if_pos rfl, bind_of_ok (htakes _ hends)]
      exact hrest.bind _

theorem readItems_givesUp {vs : List Json} (hback : ∀ v ∈ vs, v.Readable)
    (hread : ∀ v ∈ vs, Takes item v ∨ Refuses item v) (hsome : ∃ v ∈ vs, Refuses item v)
    {fuel : Nat} (hfuel : vs.length < fuel) (rest : List Char) :
    GivesUp (readItems item fuel true (itemChars vs ++ ']' :: rest)) := by
  cases vs with
  | nil =>
    obtain ⟨v, hv, -⟩ := hsome
    cases hv
  | cons v vs =>
    have hstart := readItemStart_items (hback v List.mem_cons_self) vs rest
    exact readItems_givesUp_from hback hread hsome (by simp at hfuel; omega) hstart

/-- A reader of arrays gives up at an array with an item that is refused. -/
theorem readArray_givesUp {vs : List Json} (hback : ∀ v ∈ vs, v.Readable)
    (hread : ∀ v ∈ vs, Takes item v ∨ Refuses item v) (hsome : ∃ v ∈ vs, Refuses item v)
    (rest : List Char) : GivesUp (readArray item ('[' :: (itemChars vs ++ ']' :: rest))) :=
  (readItems_givesUp hback hread hsome (items_fit hback _) rest).bind _

end

/-! ## Objects -/

/-- Reading several fields one after the other comes to one that is too deep. -/
inductive Halts {σ : Type} (field : String → σ → Reader σ) : σ → Fields → Prop where
  | here {s : σ} {name : String} {v : Json} {fs : Fields}
      (h : ∀ rest, EndsNumber rest → GivesUp (field name s (':' :: v.chars ++ rest))) :
      Halts field s ((name, v) :: fs)
  | later {s t : σ} {name : String} {v : Json} {fs : Fields}
      (h : ∀ rest, EndsNumber rest → field name s (':' :: v.chars ++ rest) = .ok (t, rest))
      (hrest : Halts field t fs) : Halts field s ((name, v) :: fs)

section

variable {σ : Type} {field : String → σ → Reader σ} {s : σ} {fs : Fields}

theorem readFields_givesUp_from {name : String} {v : Json} (h : Halts field s ((name, v) :: fs))
    {fuel : Nat} (hfuel : fs.length < fuel) {first : Bool} {cs rest : List Char}
    (hname : readName? first cs =
      .ok (some name, ':' :: v.chars ++ (moreFields fs ++ '\x7d' :: rest))) :
    GivesUp (readFields field fuel first s cs) := by
  induction fs generalizing name v s fuel first cs with
  | nil =>
    obtain ⟨spare, rfl⟩ : ∃ spare, fuel = spare + 1 := ⟨fuel - 1, by omega⟩
    unfold readFields
    rw [bind_of_ok hname]
    cases h with
    | here h => exact (h _ (endsNumber_moreFields [] rest)).bind _
    | later h hrest => cases hrest
  | cons next fs ih =>
    obtain ⟨spare, rfl⟩ : ∃ spare, fuel = spare + 1 := ⟨fuel - 1, by omega⟩
    have hends := endsNumber_moreFields (next :: fs) rest
    unfold readFields
    rw [bind_of_ok hname]
    cases h with
    | here h => exact (h _ hends).bind _
    | later h hrest =>
      refine (congrArg GivesUp (bind_of_ok (h _ hends) _)).mpr ?_
      exact ih hrest (by simpa using hfuel) (readName?_more next fs rest)

/-- A reader of an object gives up at the field that is too deep. -/
theorem readFields_givesUp (h : Halts field s fs) {fuel : Nat} (hfuel : fs.length < fuel)
    (rest : List Char) :
    GivesUp (readFields field fuel true s (fieldChars fs ++ '\x7d' :: rest)) := by
  cases fs with
  | nil => cases h
  | cons f fs =>
    exact readFields_givesUp_from h (by simp at hfuel; omega) (readName?_fields f fs rest)

end

/-- The fields of an object are put in one by one, up to one that is too deep. -/
theorem halts_insertAll {value : Reader Json} {fs : Fields}
    (hread : ∀ e ∈ fs, Takes value e.2 ∨ Refuses value e.2)
    (hsome : ∃ e ∈ fs, Refuses value e.2) (before : Fields) :
    Halts (readFieldInto value) before fs := by
  induction fs generalizing before with
  | nil =>
    obtain ⟨e, he, -⟩ := hsome
    cases he
  | cons e fs ih =>
    obtain ⟨name, v⟩ := e
    by_cases hrefuses : Refuses value v
    · -- What was put in so far is lost with the rest.
      refine .here fun rest hrest => ?_
      unfold readFieldInto
      rw [List.cons_append, bind_of_ok (readColon_cons _)]
      exact (hrefuses rest hrest).bind _
    · have htakes : Takes value v := (hread (name, v) List.mem_cons_self).resolve_right hrefuses
      have hothers : ∃ f ∈ fs, Refuses value f.2 := by
        obtain ⟨f, hf, hf'⟩ := hsome
        rcases List.mem_cons.mp hf with rfl | hf
        · exact absurd hf' hrefuses
        · exact ⟨f, hf, hf'⟩
      exact .later (fun rest hrest => readFieldInto_chars htakes name before hrest)
        (ih (fun f hf => hread f (List.mem_cons_of_mem _ hf)) hothers (before.insert name v.reread))

/-- A reader of objects gives up at an object with a field that is refused. -/
theorem readObject_givesUp {value : Reader Json} {fs : Fields}
    (hread : ∀ e ∈ fs, Takes value e.2 ∨ Refuses value e.2)
    (hsome : ∃ e ∈ fs, Refuses value e.2) (rest : List Char) :
    GivesUp (readObject value ('\x7b' :: (fieldChars fs ++ '\x7d' :: rest))) :=
  (readFields_givesUp (halts_insertAll hread hsome []) (fields_fit fs _) rest).bind _

/-! ## Values -/

theorem exists_deep_item {levels : Nat} {vs : List Json} (h : levels < depthItems vs) :
    ∃ v ∈ vs, levels < v.depth := by
  induction vs with
  | nil => cases h
  | cons v vs ih =>
    rw [depthItems] at h
    by_cases hv : levels < v.depth
    · exact ⟨v, List.mem_cons_self, hv⟩
    · obtain ⟨w, hw, hdeep⟩ := ih (by omega)
      exact ⟨w, List.mem_cons_of_mem v hw, hdeep⟩

theorem exists_deep_field {levels : Nat} {fs : Fields} (h : levels < depthFields fs) :
    ∃ f ∈ fs, levels < f.2.depth := by
  induction fs with
  | nil => cases h
  | cons f fs ih =>
    obtain ⟨name, v⟩ := f
    rw [depthFields] at h
    by_cases hv : levels < v.depth
    · exact ⟨(name, v), List.mem_cons_self, hv⟩
    · obtain ⟨g, hg, hdeep⟩ := ih (by omega)
      exact ⟨g, List.mem_cons_of_mem _ hg, hdeep⟩

/-- A value that nests deeper than a reader goes is refused for that. -/
theorem readValue_tooDeep {levels : Nat} {v : Json} (hdepth : levels < v.depth)
    (h : v.Readable) : Refuses (readValue levels) v := by
  -- Of the parts of an array or an object, which nest one level less, one is too deep.
  induction levels generalizing v with
  | zero =>
    intro rest hrest
    match v with
    | .null => cases hdepth
    | .bool b => cases hdepth
    | .number n => cases hdepth
    | .string s => cases hdepth
    | .array items => exact ⟨_, rfl⟩
    | .object fields => exact ⟨_, rfl⟩
  | succ levels ih =>
    have hread : ∀ w : Json, w.Readable →
        Takes (readValue levels) w ∨ Refuses (readValue levels) w := by
      intro w hw
      by_cases hdeep : levels < w.depth
      · exact .inr (ih hdeep hw)
      · exact .inl fun rest hrest => readValue_reread (Nat.le_of_not_lt hdeep) hw hrest
    intro rest hrest
    match v with
    | .null => cases hdepth
    | .bool b => cases hdepth
    | .number n => cases hdepth
    | .string s => cases hdepth
    | .array items =>
      have hback : ∀ w ∈ items, w.Readable := fun w hw => h.item hw
      obtain ⟨w, hw, hdeep⟩ := exists_deep_item (Nat.lt_of_succ_lt_succ hdepth)
      rw [chars_array_append]
      exact readArray_givesUp hback (fun w hw => hread w (hback w hw))
        ⟨w, hw, ih hdeep (hback w hw)⟩ rest
    | .object fields =>
      have hback : ∀ e ∈ fields, e.2.Readable := fun e he => h.field he
      obtain ⟨e, he, hdeep⟩ := exists_deep_field (Nat.lt_of_succ_lt_succ hdepth)
      rw [chars_object_append]
      exact readObject_givesUp (fun e he => hread e.2 (hback e he))
        ⟨e, he, ih hdeep (hback e he)⟩ rest

/-- A value is taken or refused, as it nests. -/
theorem takes_or_refuses {v : Json} (h : v.Readable) (levels : Nat) :
    Takes (readValue levels) v ∨ Refuses (readValue levels) v := by
  by_cases hdepth : v.depth ≤ levels
  · exact .inl fun rest hrest => readValue_reread hdepth h hrest
  · exact .inr (readValue_tooDeep (Nat.lt_of_not_le hdepth) h)

/-- An object whose fields may be in any order is read as the one in which they are put in one by
    one, unless a field is too deep. -/
theorem readValue_fields {levels : Nat} {fields : Fields} (h : ∀ e ∈ fields, e.2.Readable)
    (rest : List Char) :
    readValue (levels + 1) ((Json.object fields).chars ++ rest) =
        .ok (.object (Fields.insertAll [] (rereadFields fields)), rest) ∨
      GivesUp (readValue (levels + 1) ((Json.object fields).chars ++ rest)) := by
  have hread := fun e he => takes_or_refuses (h e he) levels
  rw [chars_object_append]
  by_cases hsome : ∃ e ∈ fields, Refuses (readValue levels) e.2
  · exact .inr (readObject_givesUp hread hsome rest)
  · have htakes : ∀ e ∈ fields, Takes (readValue levels) e.2 := by
      intro e he
      refine (hread e he).resolve_right ?_
      intro hrefuses
      exact hsome ⟨e, he, hrefuses⟩
    exact .inl (readObject_chars htakes rest)

/-- If such an object is the value of a text at all, it is that one. -/
theorem ofChars_fields {fields : Fields} {v : Json} (h : ∀ e ∈ fields, e.2.Readable)
    (hv : ofChars (Json.object fields).chars = .ok v) :
    v = .object (Fields.insertAll [] (rereadFields fields)) := by
  have hread : readValue 127 ((Json.object fields).chars ++ []) = .ok (_, []) ∨
      GivesUp (readValue 127 ((Json.object fields).chars ++ [])) := readValue_fields h []
  rw [List.append_nil] at hread
  unfold ofChars readWhole nestingLimit at hv
  rcases hread with hread | ⟨left, hread⟩
  · rw [hread] at hv
    exact (Except.ok.inj hv).symm
  · rw [hread] at hv
    cases hv

/-! ## What is read -/

theorem depthItems_le {levels : Nat} {vs : List Json} (h : ∀ v ∈ vs, v.depth ≤ levels) :
    depthItems vs ≤ levels := by
  refine Nat.le_of_not_lt fun hdeep => ?_
  obtain ⟨v, hv, hless⟩ := exists_deep_item hdeep
  exact Nat.not_lt.mpr (h v hv) hless

theorem depthFields_le {levels : Nat} {fs : Fields} (h : ∀ f ∈ fs, f.2.depth ≤ levels) :
    depthFields fs ≤ levels := by
  refine Nat.le_of_not_lt fun hdeep => ?_
  obtain ⟨f, hf, hless⟩ := exists_deep_field hdeep
  exact Nat.not_lt.mpr (h f hf) hless

theorem depth_le_of_readBy {levels : Nat} {array object : Reader Json}
    (harray : ∀ cs v left, array cs = .ok (v, left) → v.depth ≤ levels)
    (hobject : ∀ cs v left, object cs = .ok (v, left) → v.depth ≤ levels) {cs left : List Char}
    {v : Json} (h : readBy array object cs = .ok (v, left)) : v.depth ≤ levels := by
  have hbegins := begins_of_readBy h
  generalize skipSpace cs = text at hbegins
  cases hbegins with
  | null => exact Nat.zero_le _
  | yes => exact Nat.zero_le _
  | no => exact Nat.zero_le _
  | string => exact Nat.zero_le _
  | array h => exact harray _ _ _ h
  | object h => exact hobject _ _ _ h
  | number => exact Nat.zero_le _

/-- A value that is read nests no deeper than the reader goes. -/
theorem depth_le_of_readValue {levels : Nat} {cs left : List Char} {v : Json}
    (h : readValue levels cs = .ok (v, left)) : v.depth ≤ levels := by
  induction levels generalizing cs v left with
  | zero =>
    have hdeep : ∀ cs (v : Json) left, refuseDeep cs = .ok (v, left) → v.depth ≤ 0 := by
      intro cs v left hv
      cases hv
    exact depth_le_of_readBy hdeep hdeep h
  | succ levels ih =>
    refine depth_le_of_readBy ?_ ?_ h
    · intro text w behind hw
      obtain ⟨⟨items, behind'⟩, hitems, hw⟩ := of_bind_eq_ok hw
      cases hw
      refine Nat.succ_le_succ (depthItems_le fun u hu => ?_)
      obtain ⟨_, _, hread⟩ := of_mem_readItems hitems u hu
      exact ih hread
    · intro text w behind hw
      obtain ⟨⟨fields, behind'⟩, hfields, hw⟩ := of_bind_eq_ok hw
      cases hw
      refine Nat.succ_le_succ (depthFields_le fun f hf => ?_)
      obtain ⟨_, _, hread⟩ := of_mem_readFields hfields f hf
      exact ih hread

end Harvest.Json
