/-
  Harvest.Proofs.Command.Uses

  The flags that arguments give. Arguments that are accepted are uses of flags, one behind the
  other (`usesIn`): the reader takes up the value of a flag only when the next flag begins, but what
  it comes to know of a command is what the uses tell in their order (`told_of_readFlags`). From
  that it follows, for any part of the command, that the part is what the texts are read as that
  are given for it (`Told.texts`), or that its flag is used (`Told.marked`).
-/
import Harvest.Command.Flag
import Harvest.Proofs.Outcome

namespace Harvest.Command

/-! ## Uses -/

/-- A use of a flag: its name, and the text of its value if it has one. -/
abbrev Use := String × Option String

/-- Whether a flag has a value. -/
def Flag.hasValue {σ : Type} (flag : Flag σ) : Bool :=
  match flag.effect with
  | .mark _ => false
  | .take _ => true

/-- The uses of flags in arguments. The value of a flag stands behind an equals sign, or else it is
    the next argument. -/
def usesIn {σ : Type} (flags : List (Flag σ)) : List String → List Use
  | [] => []
  | arg :: args =>
    match Token.ofArgument arg with
    | .long name (some text) => (name, some text) :: usesIn flags args
    | .long name none =>
      if (flags.find? fun flag => flag.name == name).any Flag.hasValue then
        match args with
        | [] => []
        | text :: args => (name, some text) :: usesIn flags args
      else (name, none) :: usesIn flags args
    | _ => []

/-- The texts that a flag is given as its values. -/
def textsOf (name : String) (uses : List Use) : List String :=
  uses.filterMap fun use => if use.1 = name then use.2 else none

@[simp] theorem textsOf_nil (name : String) : textsOf name [] = [] := rfl

theorem textsOf_concat (name : String) (uses : List Use) (use : Use) :
    textsOf name (uses ++ [use]) =
      textsOf name uses ++ if use.1 = name then use.2.toList else [] := by
  rw [textsOf, List.filterMap_append]
  congr 1
  by_cases h : use.1 = name
  · cases htext : use.2 <;> simp [h, htext]
  · simp [h]

theorem textsOf_of_notMem {name : String} {uses : List Use} (h : name ∉ uses.map Prod.fst) :
    textsOf name uses = [] := by
  apply List.filterMap_eq_nil_iff.mpr
  intro use huse
  exact if_neg fun hname => h (List.mem_map.mpr ⟨use, huse, hname⟩)

theorem Token.eq_of_plain {arg text : String} (h : Token.ofArgument arg = .plain text) :
    text = arg := by
  unfold Token.ofArgument at h
  split at h
  · cases h
  · split at h <;> cases h
  · cases h
  · cases h
    rfl

/-! ## What uses tell -/

section

variable {σ : Type} {flags : List (Flag σ)} {start : σ}

/-- What several uses of flags tell of a command, from the first one on. A flag without a value
    changes what is known, and one with a value does so by the text of the value, which it can
    read. No flag is used again that may not be repeated. -/
inductive Told (flags : List (Flag σ)) (start : σ) : List Use → σ → Prop where
  | nothing : Told flags start [] start
  | mark {uses : List Use} {draft : σ} {flag : Flag σ} {set : σ → σ}
      (hearlier : Told flags start uses draft) (hflag : flag ∈ flags)
      (hnew : flag.repeats = true ∨ flag.name ∉ uses.map Prod.fst)
      (heffect : flag.effect = .mark set) :
      Told flags start (uses ++ [(flag.name, none)]) (set draft)
  | take {uses : List Use} {draft draft' : σ} {flag : Flag σ}
      {read : String → σ → Except Usage σ} {text : String}
      (hearlier : Told flags start uses draft) (hflag : flag ∈ flags)
      (hnew : flag.repeats = true ∨ flag.name ∉ uses.map Prod.fst)
      (heffect : flag.effect = .take read) (hread : read text draft = .ok draft') :
      Told flags start (uses ++ [(flag.name, some text)]) draft'

/-! ## Parts of what is told -/

/-- Giving a flag leaves a part of what is known. -/
def Flag.Keeps {α : Type} (flag : Flag σ) (get : σ → α) : Prop :=
  match flag.effect with
  | .mark set => ∀ draft, get (set draft) = get draft
  | .take set => ∀ text draft draft', set text draft = .ok draft' → get draft' = get draft

/-- Giving a flag adds to a part of what is known what the text of its value is read as. If the
    flag may not be repeated, the part may be taken to be empty. -/
def Flag.Collects {ε α : Type} (flag : Flag σ) (read : String → Except ε α)
    (get : σ → List α) : Prop :=
  match flag.effect with
  | .mark _ => False
  | .take set => ∀ text draft draft', set text draft = .ok draft' →
      (flag.repeats = false → get draft = []) →
      ∃ a, read text = .ok a ∧ get draft' = get draft ++ [a]

/-- Giving a flag, which has no value, marks that it is given. -/
def Flag.Marks (flag : Flag σ) (get : σ → Bool) : Prop :=
  match flag.effect with
  | .mark set => ∀ draft, get (set draft) = true
  | .take _ => False

@[simp] theorem Flag.keeps_mark {α : Type} {name : String} {repeats : Bool} {set : σ → σ}
    {get : σ → α} : (⟨name, repeats, .mark set⟩ : Flag σ).Keeps get ↔
      ∀ draft, get (set draft) = get draft := Iff.rfl

@[simp] theorem Flag.marks_mark {name : String} {repeats : Bool} {set : σ → σ} {get : σ → Bool} :
    (⟨name, repeats, .mark set⟩ : Flag σ).Marks get ↔ ∀ draft, get (set draft) = true := Iff.rfl

section

variable {ε α : Type} {flag : Flag σ} {draft draft' : σ} {text : String}

theorem Flag.Keeps.of_mark {get : σ → α} {set : σ → σ} (h : flag.Keeps get)
    (heffect : flag.effect = .mark set) : get (set draft) = get draft := by
  rw [Flag.Keeps, heffect] at h
  exact h draft

theorem Flag.Keeps.of_take {get : σ → α} {set : String → σ → Except Usage σ} (h : flag.Keeps get)
    (heffect : flag.effect = .take set) (hset : set text draft = .ok draft') :
    get draft' = get draft := by
  rw [Flag.Keeps, heffect] at h
  exact h text draft draft' hset

theorem Flag.Collects.of_take {read : String → Except ε α} {get : σ → List α}
    {set : String → σ → Except Usage σ} (h : flag.Collects read get)
    (heffect : flag.effect = .take set) (hset : set text draft = .ok draft')
    (hempty : flag.repeats = false → get draft = []) :
    ∃ a, read text = .ok a ∧ get draft' = get draft ++ [a] := by
  rw [Flag.Collects, heffect] at h
  exact h text draft draft' hset hempty

theorem Flag.Collects.ne_mark {read : String → Except ε α} {get : σ → List α}
    (h : flag.Collects read get) (set : σ → σ) : flag.effect ≠ .mark set := by
  intro heffect
  rw [Flag.Collects, heffect] at h
  exact h

theorem Flag.Marks.of_mark {get : σ → Bool} {set : σ → σ} (h : flag.Marks get)
    (heffect : flag.effect = .mark set) : get (set draft) = true := by
  rw [Flag.Marks, heffect] at h
  exact h draft

theorem Flag.Marks.ne_take {get : σ → Bool} (h : flag.Marks get)
    (set : String → σ → Except Usage σ) : flag.effect ≠ .take set := by
  intro heffect
  rw [Flag.Marks, heffect] at h
  exact h

end

/-- A part of what is told that flags of one name collect, and that other flags keep, is what the
    texts are read as that are given for the flags of the name, in their order. -/
theorem Told.texts {ε α : Type} {name : String} {read : String → Except ε α} {uses : List Use}
    {draft : σ} (h : Told flags start uses draft) (get : σ → List α) (hstart : get start = [])
    (hown : ∀ flag ∈ flags, flag.name = name → flag.Collects read get)
    (hother : ∀ flag ∈ flags, flag.name ≠ name → flag.Keeps get) :
    (textsOf name uses).mapM read = .ok (get draft) := by
  -- The induction is on the uses, of which the last one is a flag of the name or another flag.
  induction h with
  | nothing =>
    rw [hstart]
    rfl
  | @mark uses draft flag set hearlier hflag hnew heffect ih =>
    have hname : flag.name ≠ name := fun h => (hown flag hflag h).ne_mark set heffect
    have hkeeps := hother flag hflag hname
    rw [textsOf_concat, if_neg hname, List.append_nil, ih, hkeeps.of_mark heffect]
  | @take uses draft draft' flag set text hearlier hflag hnew heffect hread ih =>
    by_cases hname : flag.name = name
    · have hempty : flag.repeats = false → get draft = [] := by
        intro hrepeats
        -- The flag is used for the first time, so nothing is collected yet.
        have hunused : name ∉ uses.map Prod.fst := by simpa [hrepeats, hname] using hnew
        rw [textsOf_of_notMem hunused] at ih
        exact (Except.ok.inj ih).symm
      obtain ⟨a, ha, hget⟩ := (hown flag hflag hname).of_take heffect hread hempty
      rw [textsOf_concat, if_pos hname, List.mapM_append, ih, hget]
      simp [ha]
      rfl
    · have hkeeps := hother flag hflag hname
      rw [textsOf_concat, if_neg hname, List.append_nil, ih, hkeeps.of_take heffect hread]

/-- A part of what is told that flags of one name mark, and that other flags keep, is marked if a
    flag of the name is used. -/
theorem Told.marked {name : String} {uses : List Use} {draft : σ}
    (h : Told flags start uses draft) (get : σ → Bool) (hstart : get start = false)
    (hown : ∀ flag ∈ flags, flag.name = name → flag.Marks get)
    (hother : ∀ flag ∈ flags, flag.name ≠ name → flag.Keeps get) :
    get draft = true ↔ name ∈ uses.map Prod.fst := by
  induction h with
  | nothing => simp [hstart]
  | @mark uses draft flag set hearlier hflag hnew heffect ih =>
    rw [List.map_append, List.mem_append, ← ih, List.map_singleton, List.mem_singleton]
    by_cases hname : flag.name = name
    · simp [(hown flag hflag hname).of_mark heffect, hname]
    · simp [(hother flag hflag hname).of_mark heffect, Ne.symm hname]
  | @take uses draft draft' flag set text hearlier hflag hnew heffect hread ih =>
    have hname : flag.name ≠ name := fun h => (hown flag hflag h).ne_take set heffect
    rw [List.map_append, List.mem_append, ← ih, List.map_singleton, List.mem_singleton]
    simp [(hother flag hflag hname).of_take heffect hread, Ne.symm hname]

/-! ## Reading one argument -/

namespace Progress

variable {p q : Progress σ}

theorem note_eq_ok {name : String} {repeats : Bool} (h : p.note name repeats = .ok q) :
    (repeats = true ∨ name ∉ p.given) ∧ q = { p with given := name :: p.given } := by
  unfold note at h
  split at h
  · cases h
  · next hnew =>
    cases h
    refine ⟨?_, rfl⟩
    cases repeats with
    | true => exact .inl rfl
    | false => exact .inr (by simpa using hnew)

theorem take_eq_ok {name : String} {repeats : Bool} {read : String → σ → Except Usage σ}
    {text : String} (h : p.take name repeats read text = .ok q) :
    (repeats = true ∨ name ∉ p.given) ∧
      ∃ draft, read text p.draft = .ok draft ∧ q = { p with draft, given := name :: p.given } := by
  obtain ⟨noted, hnote, h⟩ := of_bind_eq_ok h
  obtain ⟨hnew, rfl⟩ := note_eq_ok hnote
  obtain ⟨draft, hread, h⟩ := of_bind_eq_ok h
  cases h
  exact ⟨hnew, draft, hread, rfl⟩

/-- A flag waits for the text of its value. -/
def Waits (p : Progress σ) : Prop := ∃ flag, p.pending = some flag ∧ flag.value = none

theorem Waits.settle (h : p.Waits) : p.settle = .error .invalidValue := by
  obtain ⟨flag, hpending, hvalue⟩ := h
  simp [Progress.settle, hpending, hvalue]

/-- Nothing is left to be read behind a value that was read. -/
theorem pending_of_settle (h : p.settle = .ok q) : q.pending = none := by
  unfold settle at h
  split at h
  · next hpending =>
    cases h
    exact hpending
  · split at h
    · cases h
    · obtain ⟨-, draft, -, rfl⟩ := take_eq_ok h
      rfl

theorem settle_of_pending (h : p.pending = none) : p.settle = .ok p := by
  simp [settle, h]

/-- A flag is taken up when the value in front of it is read. It then changes what is known, be
    it without a value or with the text of one, or else it waits for the text. -/
theorem give_eq_ok {flag : Flag σ} {value : Option String} (h : p.give flag value = .ok q) :
    ∃ p', p.settle = .ok p' ∧
      ((∃ set, flag.effect = .mark set ∧ value = none ∧
          (flag.repeats = true ∨ flag.name ∉ p'.given) ∧
          q = { p' with draft := set p'.draft, given := flag.name :: p'.given }) ∨
        (∃ read text, flag.effect = .take read ∧ value = some text ∧
          p'.take flag.name flag.repeats read text = .ok q) ∨
        ∃ read, flag.effect = .take read ∧ value = none ∧
          q = { p' with pending := some ⟨flag.name, flag.repeats, read, none⟩ }) := by
  unfold give at h
  split at h
  · cases h
  · next set heffect =>
    obtain ⟨p', hsettle, h⟩ := of_bind_eq_ok h
    obtain ⟨noted, hnote, h⟩ := of_bind_eq_ok h
    obtain ⟨hnew, rfl⟩ := note_eq_ok hnote
    cases h
    exact ⟨p', hsettle, .inl ⟨set, heffect, rfl, hnew, rfl⟩⟩
  · next read text heffect =>
    obtain ⟨p', hsettle, h⟩ := of_bind_eq_ok h
    exact ⟨p', hsettle, .inr (.inl ⟨read, text, heffect, rfl, h⟩)⟩
  · next read heffect =>
    obtain ⟨p', hsettle, h⟩ := of_bind_eq_ok h
    cases h
    exact ⟨p', hsettle, .inr (.inr ⟨read, heffect, rfl, rfl⟩)⟩

theorem giveHelp_ne_ok : p.giveHelp ≠ .ok q := by
  intro h
  obtain ⟨p', -, h⟩ := of_bind_eq_ok h
  cases h

/-- An argument that is taken up is a text for the flag that waits for one, or else one of the
    flags. -/
theorem step_eq_ok {token : Token} (h : p.step flags token = .ok q) :
    (∃ text, token = .plain text ∧ p.fill text = .ok q) ∨
      ∃ name value flag, token = .long name value ∧
        (flags.find? fun flag => flag.name == name) = some flag ∧ p.give flag value = .ok q := by
  cases token with
  | dashes => cases h
  | plain text => exact .inl ⟨text, rfl, h⟩
  | short letter =>
    rw [step] at h
    split at h
    · exact absurd h giveHelp_ne_ok
    · cases h
  | long name value =>
    rw [step] at h
    split at h
    · split at h
      · cases h
      · exact absurd h giveHelp_ne_ok
    · split at h
      · next flag hfind => exact .inr ⟨name, value, flag, rfl, hfind, h⟩
      · cases h

/-- The text that a flag waits for is kept as it is. -/
theorem fill_eq_ok {text : String} (h : p.fill text = .ok q) :
    ∃ flag, p.pending = some flag ∧ flag.value = none ∧
      q = { p with pending := some { flag with value := some text } } := by
  unfold fill at h
  split at h
  · next name repeats read hpending =>
    cases h
    exact ⟨_, hpending, rfl, rfl⟩
  · cases h

theorem step_of_waits {token : Token} (hwaits : p.Waits) (h : p.step flags token = .ok q) :
    ∃ text, token = .plain text ∧ p.fill text = .ok q := by
  rcases step_eq_ok h with hfill | ⟨name, value, flag, -, -, hgive⟩
  · exact hfill
  · obtain ⟨p', hsettle, -⟩ := give_eq_ok hgive
    rw [hwaits.settle] at hsettle
    cases hsettle

/-! ## Reading all arguments -/

theorem read_nil : p.read flags [] = p.settle := by
  rw [read]

/-- The first argument is taken up, and then the others are read, but for two dashes at the
    end. -/
theorem read_cons_eq_ok {arg : String} {args : List String}
    (h : p.read flags (arg :: args) = .ok q) :
    (Token.ofArgument arg = .dashes ∧ args = [] ∧ p.settle = .ok q) ∨
      ∃ p', p.step flags (.ofArgument arg) = .ok p' ∧ p'.read flags args = .ok q := by
  rw [read] at h
  split at h
  · next hdashes =>
    split at h
    · next hlast => exact .inl ⟨hdashes, List.isEmpty_iff.mp hlast, h⟩
    · cases h
  · exact .inr (of_bind_eq_ok h)

/-- A flag that waits for the text of its value has it in the next argument. -/
theorem read_of_waits {args : List String} {flag : Pending σ} (hpending : p.pending = some flag)
    (hvalue : flag.value = none) (h : p.read flags args = .ok q) :
    ∃ text rest, args = text :: rest ∧
      ({ p with pending := some { flag with value := some text } } : Progress σ).read flags rest =
        .ok q := by
  have hwaits : p.Waits := ⟨flag, hpending, hvalue⟩
  cases args with
  | nil =>
    rw [read_nil, hwaits.settle] at h
    cases h
  | cons arg rest =>
    rcases read_cons_eq_ok h with ⟨-, -, hsettle⟩ | ⟨p', hstep, hread⟩
    · rw [hwaits.settle] at hsettle
      cases hsettle
    · obtain ⟨text, hplain, hfill⟩ := step_of_waits hwaits hstep
      obtain ⟨flag', hpending', -, rfl⟩ := fill_eq_ok hfill
      obtain rfl : flag = flag' := Option.some.inj (hpending.symm.trans hpending')
      obtain rfl := Token.eq_of_plain hplain
      exact ⟨text, rest, rfl, hread⟩

/-- What is known is what uses of flags tell, all of which are noted. -/
structure Knows (flags : List (Flag σ)) (start : σ) (p : Progress σ) (uses : List Use) : Prop where
  told : Told flags start uses p.draft
  noted : ∀ name, name ∈ p.given ↔ name ∈ uses.map Prod.fst

theorem noted_concat {given : List String} {uses : List Use}
    (h : ∀ name, name ∈ given ↔ name ∈ uses.map Prod.fst) (use : Use) (name : String) :
    name ∈ use.1 :: given ↔ name ∈ (uses ++ [use]).map Prod.fst := by
  rw [List.mem_cons, h, List.map_append, List.mem_append, or_comm, List.map_singleton,
    List.mem_singleton]

theorem Knows.mark {uses : List Use} {flag : Flag σ} {set : σ → σ} (h : p.Knows flags start uses)
    (hflag : flag ∈ flags) (hnew : flag.repeats = true ∨ flag.name ∉ p.given)
    (heffect : flag.effect = .mark set) :
    ({ p with draft := set p.draft, given := flag.name :: p.given } : Progress σ).Knows flags start
      (uses ++ [(flag.name, none)]) := by
  rw [h.noted] at hnew
  exact ⟨.mark h.told hflag hnew heffect, noted_concat h.noted (flag.name, none)⟩

theorem Knows.take {uses : List Use} {flag : Flag σ} {read : String → σ → Except Usage σ}
    {text : String} (h : p.Knows flags start uses) (hflag : flag ∈ flags)
    (heffect : flag.effect = .take read)
    (htake : p.take flag.name flag.repeats read text = .ok q) :
    q.Knows flags start (uses ++ [(flag.name, some text)]) := by
  obtain ⟨hnew, draft, hread, rfl⟩ := take_eq_ok htake
  rw [h.noted] at hnew
  exact ⟨.take h.told hflag hnew heffect hread, noted_concat h.noted (flag.name, some text)⟩

/-- An argument that is a flag is taken up as the first flag of its name. -/
theorem given_of_read {arg name : String} {value : Option String} {args : List String}
    (harg : Token.ofArgument arg = .long name value) (h : p.read flags (arg :: args) = .ok q) :
    ∃ p' flag, (flag ∈ flags ∧ flag.name = name) ∧
      (flags.find? fun flag => flag.name == name) = some flag ∧
      p.give flag value = .ok p' ∧ p'.read flags args = .ok q := by
  rcases read_cons_eq_ok h with ⟨hdashes, -, -⟩ | ⟨p', hstep, hread⟩
  · rw [harg] at hdashes
    cases hdashes
  · rw [harg] at hstep
    rcases step_eq_ok hstep with ⟨text, hplain, -⟩ | ⟨_, _, flag, hlong, hfind, hgive⟩
    · cases hplain
    · cases hlong
      have hname : flag.name = name := by simpa using List.find?_some hfind
      exact ⟨p', flag, ⟨List.mem_of_find?_eq_some hfind, hname⟩, hfind, hgive, hread⟩

/-- Once the value is read that is left to be read, uses are added to what is known. -/
def Adds (flags : List (Flag σ)) (start : σ) (p : Progress σ) (added : List Use)
    (q : Progress σ) : Prop :=
  ∃ p', p.settle = .ok p' ∧ ∀ uses, p'.Knows flags start uses →
    q.Knows flags start (uses ++ added)

theorem Adds.nil (h : p.settle = .ok q) : p.Adds flags start [] q :=
  ⟨q, h, fun uses hknows => by rwa [List.append_nil]⟩

theorem Adds.cons {p p' s s' : Progress σ} {use : Use} {added : List Use}
    (hp : p.settle = .ok p') (hs : s.settle = .ok s')
    (huse : ∀ uses, p'.Knows flags start uses → s'.Knows flags start (uses ++ [use]))
    (h : s.Adds flags start added q) : p.Adds flags start (use :: added) q := by
  obtain ⟨s'', hs'', hadds⟩ := h
  obtain rfl : s' = s'' := Except.ok.inj (hs.symm.trans hs'')
  refine ⟨p', hp, fun uses hknows => ?_⟩
  have hboth := hadds _ (huse uses hknows)
  rwa [List.append_assoc, List.singleton_append] at hboth

/-- A flag that is taken up at once, without a value or with its text, is used. -/
theorem adds_of_give {s : Progress σ} {flag : Flag σ} {value : Option String} (hflag : flag ∈ flags)
    (hatOnce : value = none → flag.hasValue = false) (h : p.give flag value = .ok s) :
    ¬ s.Waits ∧ ∀ added, s.Adds flags start added q →
      p.Adds flags start ((flag.name, value) :: added) q := by
  obtain ⟨p', hsettle, hgiven⟩ := give_eq_ok h
  have hsettled := pending_of_settle hsettle
  have hused : s.pending = none ∧ ∀ uses, p'.Knows flags start uses →
      s.Knows flags start (uses ++ [(flag.name, value)]) := by
    rcases hgiven with ⟨set, heffect, rfl, hnew, rfl⟩ | ⟨read, text, heffect, rfl, htake⟩ |
      ⟨read, heffect, rfl, -⟩
    · exact ⟨hsettled, fun uses h => h.mark hflag hnew heffect⟩
    · refine ⟨?_, fun uses h => h.take hflag heffect htake⟩
      obtain ⟨-, draft, -, rfl⟩ := take_eq_ok htake
      exact hsettled
    · -- A flag that waits for its text is not taken up at once.
      have hvalue := hatOnce rfl
      rw [Flag.hasValue, heffect] at hvalue
      cases hvalue
  obtain ⟨hpending, huse⟩ := hused
  refine ⟨?_, fun added hadds => hadds.cons hsettle (settle_of_pending hpending) huse⟩
  rintro ⟨_, hwaiting, -⟩
  rw [hpending] at hwaiting
  cases hwaiting

/-- A flag that has a value which is not there yet waits for its text. -/
theorem waits_of_give {s : Progress σ} {flag : Flag σ} (hvalue : flag.hasValue = true)
    (h : p.give flag none = .ok s) :
    ∃ p' read, p.settle = .ok p' ∧ flag.effect = .take read ∧
      s = { p' with pending := some ⟨flag.name, flag.repeats, read, none⟩ } := by
  obtain ⟨p', hsettle, hgiven⟩ := give_eq_ok h
  rcases hgiven with ⟨set, heffect, -⟩ | ⟨_, _, _, hnone, _⟩ | ⟨read, heffect, -, hs⟩
  · rw [Flag.hasValue, heffect] at hvalue
    cases hvalue
  · cases hnone
  · exact ⟨p', read, hsettle, heffect, hs⟩

/-- The flag has the next argument for its text, and is used when the value is read. -/
theorem adds_of_wait {s : Progress σ} {flag : Flag σ} {args : List String} (hflag : flag ∈ flags)
    (hvalue : flag.hasValue = true) (h : p.give flag none = .ok s)
    (hread : s.read flags args = .ok q) :
    ∃ text rest, args = text :: rest ∧ ∃ s' : Progress σ, ¬ s'.Waits ∧
      s'.read flags rest = .ok q ∧ ∀ added, s'.Adds flags start added q →
        p.Adds flags start ((flag.name, some text) :: added) q := by
  obtain ⟨p', read, hsettle, heffect, rfl⟩ := waits_of_give hvalue h
  obtain ⟨text, rest, rfl, hrest⟩ := read_of_waits rfl rfl hread
  refine ⟨text, rest, rfl, _, ?_, hrest, ?_⟩
  · rintro ⟨_, ⟨⟩, ⟨⟩⟩
  · rintro added ⟨s', hsettle', hadds⟩
    refine Adds.cons hsettle hsettle' ?_ ⟨s', hsettle', hadds⟩
    intro uses hknows
    -- No other value was left to be read, so what was known is just what was settled.
    have hsame : ({ p' with pending := none } : Progress σ) = p' := by
      rw [← pending_of_settle hsettle]
    simp only [settle] at hsettle'
    rw [hsame] at hsettle'
    exact hknows.take hflag heffect hsettle'

/-- Reading arguments adds their uses to what is known. The value that is left to be read when one
    argument is taken up is read when the next flag is, or at the end. -/
theorem adds_of_read {args : List String} (hwaits : ¬ p.Waits)
    (hread : p.read flags args = .ok q) : p.Adds flags start (usesIn flags args) q := by
  fun_induction usesIn flags args generalizing p with
  | case1 => exact .nil (read_nil.symm.trans hread)
  | case2 arg args name text harg ih =>
    obtain ⟨s, flag, ⟨hflag, rfl⟩, -, hgive, hrest⟩ := given_of_read harg hread
    obtain ⟨hready, hadds⟩ := adds_of_give hflag (by nofun) hgive
    exact hadds _ (ih hready hrest)
  | case3 arg name harg hvalue =>
    obtain ⟨s, flag, ⟨hflag, -⟩, hfind, hgive, hrest⟩ := given_of_read harg hread
    rw [hfind] at hvalue
    -- The arguments end where the value has to be, and so they are not accepted.
    obtain ⟨p', read, -, -, rfl⟩ := waits_of_give hvalue hgive
    obtain ⟨text, rest, hargs, -⟩ := read_of_waits rfl rfl hrest
    cases hargs
  | case4 arg name harg hvalue text args ih =>
    obtain ⟨s, flag, ⟨hflag, rfl⟩, hfind, hgive, hrest⟩ := given_of_read harg hread
    rw [hfind] at hvalue
    obtain ⟨_, _, ⟨⟩, s', hready, hrest, hadds⟩ := adds_of_wait hflag hvalue hgive hrest
    exact hadds _ (ih hready hrest)
  | case5 arg args name harg hvalue ih =>
    obtain ⟨s, flag, ⟨hflag, rfl⟩, hfind, hgive, hrest⟩ := given_of_read harg hread
    rw [hfind] at hvalue
    obtain ⟨hready, hadds⟩ := adds_of_give hflag (fun _ => Bool.eq_false_iff.mpr hvalue) hgive
    exact hadds _ (ih hready hrest)
  | case6 arg args hjoined hbare =>
    -- What is no flag can only be two dashes at the end.
    rcases read_cons_eq_ok hread with ⟨-, -, hsettle⟩ | ⟨p', hstep, -⟩
    · exact .nil hsettle
    · rcases step_eq_ok hstep with ⟨text, -, hfill⟩ | ⟨name, value, -, hlong, -⟩
      · obtain ⟨flag, hpending, hvalue, -⟩ := fill_eq_ok hfill
        exact absurd ⟨flag, hpending, hvalue⟩ hwaits
      · cases value with
        | none => exact (hbare name hlong).elim
        | some text => exact (hjoined name text hlong).elim

end Progress

/-- What arguments that are accepted tell of a command is what the uses of flags in them tell. -/
theorem told_of_readFlags {draft : σ} {args : List String}
    (h : readFlags flags start args = .ok draft) : Told flags start (usesIn flags args) draft := by
  obtain ⟨q, hread, h⟩ := of_bind_eq_ok h
  cases h
  have hstart : (Progress.start start).Knows flags start [] := ⟨.nothing, fun name => by rfl⟩
  have hready : ¬ (Progress.start start).Waits := by
    rintro ⟨_, ⟨⟩, -⟩
  have hadds : (Progress.start start).Adds flags start (usesIn flags args) q :=
    Progress.adds_of_read hready hread
  -- There is no value to be read in front of the first argument.
  obtain ⟨p', hsettle, hadds⟩ := hadds
  cases hsettle
  exact (hadds [] hstart).told

end

end Harvest.Command
