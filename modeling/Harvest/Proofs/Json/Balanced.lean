/-
  Harvest.Proofs.Json.Balanced

  Values close what they open. A value that is read, or passed over, leaves a scanner of brackets as
  deep as it was (`readValue_keeps`, `skipValue_keeps`), and a record is read up to the bracket that
  closes it (`Layout.readObject_run`). The text of a value closes what it opens as well, whether it
  can be read back or not (`run_chars`).
-/
import Harvest.Proofs.Json.Brackets

namespace Harvest.Json

open Scan

/-! ## Items and fields -/

section

variable {depth : Nat} {cs left : List Char}

theorem pop_of_bracket {c : Char} (h : c = ']' ∨ c = '}') (cs : List Char) :
    run (.outside depth) (c :: cs) = run (pop depth) cs := by
  rcases h with rfl | rfl <;> rfl

/-- In front of an item only blanks and a comma are passed over. -/
theorem readItemStart_keeps (first : Bool) : (readItemStart first).Keeps := by
  intro depth cs left more h
  unfold readItemStart at h
  split at h
  · cases h
  · next c rest hc =>
    rw [run_of_skipSpace hc]
    split at h
    · cases h
      rfl
    · split at h
      · cases h
        rfl
      · split at h
        · next hcomma =>
          rw [hcomma, run_idle rfl]
          split at h
          · cases h
          · next d ds hd =>
            rw [run_of_skipSpace hd]
            split at h
            · cases h
            · cases h
              rfl
        · cases h

/-- Behind the last item is the closing bracket. -/
theorem bracket_of_readItemStart {first : Bool} (h : readItemStart first cs = .ok (false, left)) :
    ∃ rest, left = ']' :: rest := by
  unfold readItemStart at h
  split at h
  · cases h
  · next c rest hc =>
    split at h
    · next hclose =>
      cases h
      exact ⟨rest, by rw [hclose]⟩
    · split at h
      · cases h
      · split at h
        · split at h
          · cases h
          · split at h <;> cases h
        · cases h

/-- The items of an array are read up to its closing bracket. -/
theorem readItems_run {α : Type} {item : Reader α} (hitem : item.Keeps) {fuel : Nat}
    {first : Bool} {vs : List α} (h : readItems item fuel first cs = .ok (vs, left)) :
    run (.outside depth) cs = run (pop depth) left := by
  induction fuel generalizing first cs vs with
  | zero => cases h
  | succ fuel ih =>
    unfold readItems at h
    obtain ⟨⟨more, text⟩, hstart, h⟩ := of_bind_eq_ok h
    rw [readItemStart_keeps first hstart]
    -- The bracket is left where it is, for the reader of the items to pass over.
    cases more with
    | false =>
      obtain ⟨rest, rfl⟩ := bracket_of_readItemStart hstart
      cases h
      exact pop_of_bracket (.inl rfl) rest
    | true =>
      obtain ⟨⟨v, behind⟩, hv, h⟩ := of_bind_eq_ok h
      obtain ⟨⟨ws, behind'⟩, hws, h⟩ := of_bind_eq_ok h
      cases h
      rw [hitem hv]
      exact ih hws

/-- In front of a field its name is read, and behind the last one the closing bracket. -/
theorem readName?_run {first : Bool} {name? : Option String}
    (h : readName? first cs = .ok (name?, left)) :
    run (.outside depth) cs =
      if name?.isSome = true then run (.outside depth) left else run (pop depth) left := by
  -- With a comma in front of it or without, a name is a string.
  have hname : ∀ {rest : List Char} {name? : Option String},
      (readString rest >>= fun s => pure (some s.1, s.2)) = .ok (name?, left) →
      run (.outside depth) ('"' :: rest) =
        if name?.isSome = true then run (.outside depth) left else run (pop depth) left := by
    intro rest name? h
    obtain ⟨⟨name, behind⟩, hstring, h⟩ := of_bind_eq_ok h
    cases h
    exact readString_run hstring
  unfold readName? at h
  split at h
  · cases h
  · next c rest hc =>
    rw [run_of_skipSpace hc]
    split at h
    · next hclose =>
      cases h
      exact pop_of_bracket (.inr hclose) _
    · split at h
      · split at h
        · next hquote =>
          rw [hquote]
          exact hname h
        · cases h
      · split at h
        · next hcomma =>
          rw [hcomma, run_idle rfl]
          split at h
          · cases h
          · next d ds hd =>
            rw [run_of_skipSpace hd]
            split at h
            · next hquote =>
              rw [hquote]
              exact hname h
            · split at h <;> cases h
        · cases h

theorem readColon_keeps : Reader.Keeps readColon := by
  intro depth cs left u h
  unfold readColon at h
  split at h
  · cases h
  · next c rest hc =>
    split at h
    · next hcolon =>
      cases h
      rw [run_of_skipSpace hc, hcolon, run_idle rfl]
    · cases h

/-- The fields of an object are read up to its closing bracket. -/
theorem readFields_run {σ : Type} {field : String → σ → Reader σ}
    (hfield : ∀ name s, (field name s).Keeps) {fuel : Nat} {first : Bool} {s t : σ}
    (h : readFields field fuel first s cs = .ok (t, left)) :
    run (.outside depth) cs = run (pop depth) left := by
  induction fuel generalizing first s cs with
  | zero => cases h
  | succ fuel ih =>
    unfold readFields at h
    obtain ⟨⟨name?, text⟩, hname, h⟩ := of_bind_eq_ok h
    rw [readName?_run hname]
    cases name? with
    | none =>
      cases h
      rfl
    | some name =>
      obtain ⟨⟨u, behind⟩, hu, h⟩ := of_bind_eq_ok h
      rw [Option.isSome_some, if_pos rfl, hfield name s hu]
      exact ih h

end

/-! ## Values -/

theorem readBy_keeps {array object : Reader Json}
    (harray : ∀ {depth cs left v}, array ('[' :: cs) = .ok (v, left) →
      run (.outside (depth + 1)) cs = run (.outside depth) left)
    (hobject : ∀ {depth cs left v}, object ('{' :: cs) = .ok (v, left) →
      run (.outside (depth + 1)) cs = run (.outside depth) left) :
    (readBy array object).Keeps := by
  intro depth cs left v h
  have hbegins := begins_of_readBy h
  rw [← run_skipSpace]
  generalize skipSpace cs = text at hbegins
  cases hbegins with
  | null h => rw [run_idle rfl, readWord_keeps rfl h]
  | yes h => rw [run_idle rfl, readWord_keeps rfl h]
  | no h => rw [run_idle rfl, readWord_keeps rfl h]
  | string h => exact readString_run h
  | array h => exact harray h
  | object h => exact hobject h
  | number h => exact readNumber_keeps h

theorem readFieldInto_keeps {value : Reader Json} (h : value.Keeps) (name : String)
    (fields : Fields) : (readFieldInto value name fields).Keeps := by
  intro depth cs left gs hread
  obtain ⟨⟨u, behind⟩, hcolon, hread⟩ := of_bind_eq_ok hread
  obtain ⟨⟨v, behind'⟩, hv, hread⟩ := of_bind_eq_ok hread
  cases hread
  rw [readColon_keeps hcolon, h hv]

/-- A value that is read closes what it opens. -/
theorem readValue_keeps (levels : Nat) : (readValue levels).Keeps := by
  induction levels with
  | zero =>
    refine readBy_keeps ?_ ?_
    all_goals
      intro depth cs left v h
      cases h
  | succ levels ih =>
    refine readBy_keeps ?_ ?_
    · intro depth cs left v h
      obtain ⟨⟨items, behind⟩, hitems, h⟩ := of_bind_eq_ok h
      cases h
      exact readItems_run ih hitems
    · intro depth cs left v h
      obtain ⟨⟨fields, behind⟩, hfields, h⟩ := of_bind_eq_ok h
      cases h
      exact readFields_run (readFieldInto_keeps ih) hfields

/-! ## Values that are passed over -/

theorem skipExponent_keeps : Reader.Keeps skipExponent := by
  intro depth cs left u h
  unfold skipExponent at h
  dsimp only at h
  split at h
  · cases h
    rw [run_dropDigits, run_takeSign]
  · cases h

theorem skipExponent?_keeps : Reader.Keeps skipExponent? := by
  intro depth cs left u h
  unfold skipExponent? at h
  split at h
  · rw [run_idle rfl]
    exact skipExponent_keeps h
  · rw [run_idle rfl]
    exact skipExponent_keeps h
  · cases h
    rfl

theorem skipTail_keeps : Reader.Keeps skipTail := by
  intro depth cs left u h
  unfold skipTail at h
  split at h
  · split at h
    · rw [run_idle rfl, ← run_dropDigits]
      exact skipExponent?_keeps h
    · cases h
  · exact skipExponent?_keeps h

theorem skipMagnitude_keeps : Reader.Keeps skipMagnitude := by
  intro depth cs left u h
  unfold skipMagnitude at h
  split at h
  · split at h
    · cases h
    · rw [run_idle rfl]
      exact skipTail_keeps h
  · split at h
    · rw [← run_dropDigits]
      exact skipTail_keeps h
    · cases h

theorem skipName_keeps : Reader.Keeps skipName := by
  intro depth cs left u h
  unfold skipName at h
  split at h
  · cases h
  · next c rest hc =>
    rw [run_of_skipSpace hc]
    split at h
    · next hquote =>
      obtain ⟨⟨v, behind⟩, hv, h⟩ := of_bind_eq_ok h
      rw [hquote, ← readColon_keeps h]
      exact skipString_run hv
    · cases h

theorem skipParts_run {close : Char} (hclose : close = ']' ∨ close = '}') {ended missing : Cause}
    {part : Reader Unit} (hpart : part.Keeps) {fuel : Nat} {first : Bool} {depth : Nat}
    {cs left : List Char} {u : Unit}
    (h : skipParts close ended missing part fuel first cs = .ok (u, left)) :
    run (.outside depth) cs = run (pop depth) left := by
  induction fuel generalizing first cs with
  | zero => cases h
  | succ fuel ih =>
    unfold skipParts at h
    split at h
    · cases h
    · next c rest hc =>
      rw [run_of_skipSpace hc]
      split at h
      · next hsame =>
        cases h
        exact pop_of_bracket (hsame ▸ hclose) _
      · split at h
        · obtain ⟨⟨v, behind⟩, hv, h⟩ := of_bind_eq_ok h
          rw [hpart hv]
          exact ih h
        · split at h
          · next hcomma =>
            obtain ⟨⟨v, behind⟩, hv, h⟩ := of_bind_eq_ok h
            rw [hcomma, run_idle rfl, hpart hv]
            exact ih h
          · cases h

/-- The name and the value of a field are passed over one after the other. -/
theorem skipField_keeps {value : Reader Unit} (h : value.Keeps) :
    Reader.Keeps fun cs => skipName cs >>= fun name => value name.2 := by
  intro depth cs left u hskip
  obtain ⟨⟨v, behind⟩, hname, hskip⟩ := of_bind_eq_ok hskip
  rw [skipName_keeps hname]
  exact h hskip

theorem skipBy_keeps {value : Reader Unit} (h : value.Keeps) :
    (skipBy (skipItems value) (skipFields value)).Keeps := by
  intro depth cs left u hskip
  unfold skipBy at hskip
  split at hskip
  · cases hskip
  · next c rest hc =>
    rw [run_of_skipSpace hc]
    by_cases hnull : c = 'n'
    · rw [if_pos hnull] at hskip
      rw [hnull, run_idle rfl, readWord_keeps rfl hskip]
    rw [if_neg hnull] at hskip
    by_cases hyes : c = 't'
    · rw [if_pos hyes] at hskip
      rw [hyes, run_idle rfl, readWord_keeps rfl hskip]
    rw [if_neg hyes] at hskip
    by_cases hno : c = 'f'
    · rw [if_pos hno] at hskip
      rw [hno, run_idle rfl, readWord_keeps rfl hskip]
    rw [if_neg hno] at hskip
    by_cases hquote : c = '"'
    · rw [if_pos hquote] at hskip
      rw [hquote]
      exact skipString_run hskip
    rw [if_neg hquote] at hskip
    -- The parts of an array or an object are one bracket deeper.
    by_cases hlist : c = '['
    · rw [if_pos hlist] at hskip
      rw [hlist]
      show run (.outside (depth + 1)) rest = run (pop (depth + 1)) left
      exact skipParts_run (.inl rfl) h hskip
    rw [if_neg hlist] at hskip
    by_cases hmap : c = '\x7b'
    · rw [if_pos hmap] at hskip
      rw [hmap]
      show run (.outside (depth + 1)) rest = run (pop (depth + 1)) left
      exact skipParts_run (.inr rfl) (skipField_keeps h) hskip
    rw [if_neg hmap] at hskip
    by_cases hminus : c = '-'
    · rw [if_pos hminus] at hskip
      rw [hminus, run_idle rfl, skipMagnitude_keeps hskip]
    rw [if_neg hminus] at hskip
    split at hskip
    · exact skipMagnitude_keeps hskip
    · cases hskip

/-- A value that is passed over closes what it opens. -/
theorem skipValue_keeps : Reader.Keeps skipValue := by
  have hlevels : ∀ levels, (skipLevels levels).Keeps := by
    intro levels
    induction levels with
    | zero => exact nofun
    | succ levels ih => exact skipBy_keeps ih
  intro depth cs left u h
  exact hlevels _ h

/-! ## Records -/

theorem readOther_ne_ok {α : Type} {expected : String} {cs left : List Char} {a : α} :
    readOther expected cs ≠ .ok (a, left) := by
  intro h
  obtain ⟨⟨v, behind⟩, -, h⟩ := of_bind_eq_ok h
  cases h

/-- What is placed was no refusal, and nothing more is read for it. -/
theorem of_placed_eq_ok {α : Type} {cs left : List Char} {result : Except Mismatch α} {a : α}
    (h : placed cs result = .ok (a, left)) : result = .ok a ∧ left = cs := by
  cases result with
  | error m => cases h
  | ok a' =>
    cases h
    exact ⟨rfl, rfl⟩

namespace Shape

/-- A shape whose values close what they open. -/
def Keeps {α : Type} (s : Shape α) : Prop := ∀ levels, (s.read levels).Keeps

theorem string_keeps (expected : String) : (Shape.string expected).Keeps := by
  intro levels depth cs left s h
  unfold Shape.string at h
  dsimp only at h
  split at h
  · next rest hc =>
    rw [run_of_skipSpace hc]
    exact readString_run h
  · exact absurd h readOther_ne_ok

theorem refine_keeps {α β : Type} {s : Shape α} (h : s.Keeps) (f : α → Except Mismatch β) :
    (s.refine f).Keeps := by
  intro levels depth cs left b hread
  obtain ⟨⟨a, behind⟩, ha, hread⟩ := of_bind_eq_ok hread
  rw [h levels ha, (of_placed_eq_ok hread).2]

theorem any_keeps : Shape.any.Keeps := readValue_keeps

end Shape

namespace Layout

/-- The values of all fields close what they open. -/
def Keeps {α δ : Type} : Layout α δ → Prop
  | .done => True
  | .field _ shape _ rest => shape.Keeps ∧ rest.Keeps

theorem readInto_keeps {α δ : Type} {l : Layout α δ} (h : l.Keeps) (levels : Nat) (name : String)
    (draft : δ) : (l.readInto levels name draft).Keeps := by
  intro depth cs left t hread
  induction l generalizing cs left with
  | done =>
    obtain ⟨⟨u, behind⟩, hcolon, hread⟩ := of_bind_eq_ok hread
    rw [readColon_keeps hcolon]
    exact skipValue_keeps hread
  | field known shape absent rest ih =>
    obtain ⟨b?, draft⟩ := draft
    rw [readInto] at hread
    split at hread
    -- A second field of the same name is refused.
    · split at hread
      · cases hread
      · obtain ⟨⟨u, behind⟩, hcolon, hread⟩ := of_bind_eq_ok hread
        obtain ⟨⟨b, behind'⟩, hb, hread⟩ := of_bind_eq_ok hread
        cases hread
        rw [readColon_keeps hcolon, h.1 levels hb]
    · obtain ⟨⟨d, behind⟩, hd, hread⟩ := of_bind_eq_ok hread
      cases hread
      exact ih h.2 draft hd

/-- An object is read up to its closing bracket. -/
theorem readObject_run {α δ : Type} {l : Layout α δ} (h : l.Keeps) {levels depth : Nat}
    {cs left : List Char} {a : α} (hread : l.readObject levels ('{' :: cs) = .ok (a, left)) :
    run (.outside depth) cs = run (pop depth) left := by
  cases levels with
  | zero => cases hread
  | succ levels =>
    obtain ⟨⟨draft, behind⟩, hfields, hread⟩ := of_bind_eq_ok hread
    have hrun : run (.outside depth) cs = run (pop depth) behind :=
      readFields_run (readInto_keeps h levels) hfields
    rw [hrun, (of_placed_eq_ok hread).2]

end Layout

/-! ## Texts of values -/

section

variable {depth : Nat}

theorem run_stringChars (s : String) (rest : List Char) :
    run (.outside depth) (stringChars s ++ rest) = run (.outside depth) rest := by
  rw [stringChars_append]
  exact readString_run (readString_chars s rest)

theorem run_itemChars {items : List Json} (depth : Nat) (rest : List Char)
    (h : ∀ v ∈ items, ∀ rest, run (.outside depth) (v.chars ++ rest) = run (.outside depth) rest) :
    run (.outside depth) (itemChars items ++ rest) = run (.outside depth) rest := by
  induction items with
  | nil => rfl
  | cons v items ih =>
    have hrest := ih fun w hw => h w (List.mem_cons_of_mem v hw)
    have hmore : run (.outside depth) (moreItems items ++ rest) = run (.outside depth) rest := by
      cases items with
      | nil => rfl
      | cons w items =>
        show run (.outside depth) (',' :: (itemChars (w :: items) ++ rest)) = _
        rw [run_idle rfl, hrest]
    rw [itemChars_cons, List.append_assoc, h v List.mem_cons_self, hmore]

theorem run_fieldChars {fields : Fields} (depth : Nat) (rest : List Char)
    (h : ∀ e ∈ fields, ∀ rest,
      run (.outside depth) (e.2.chars ++ rest) = run (.outside depth) rest) :
    run (.outside depth) (fieldChars fields ++ rest) = run (.outside depth) rest := by
  induction fields with
  | nil => rfl
  | cons e fields ih =>
    obtain ⟨name, v⟩ := e
    have hrest := ih fun f hf => h f (List.mem_cons_of_mem _ hf)
    have hmore : run (.outside depth) (moreFields fields ++ rest) = run (.outside depth) rest := by
      cases fields with
      | nil => rfl
      | cons f fields =>
        show run (.outside depth) (',' :: (fieldChars (f :: fields) ++ rest)) = _
        rw [run_idle rfl, hrest]
    have hv := h (name, v) List.mem_cons_self
    rw [fieldChars_cons]
    simp only [List.append_assoc, List.cons_append]
    rw [run_stringChars, run_idle rfl, hv, hmore]

/-- The text of a value closes what it opens. -/
theorem run_chars (v : Json) (depth : Nat) (rest : List Char) :
    run (.outside depth) (v.chars ++ rest) = run (.outside depth) rest := by
  induction v using parts_induction generalizing depth rest with
  | null => exact run_bare rfl rest
  | bool b => cases b <;> exact run_bare rfl rest
  | number n => exact run_bare (Number.isBare_chars n) rest
  | string s => exact run_stringChars s rest
  | array items ih =>
    have hitems := run_itemChars (depth + 1) (']' :: rest) fun v hv => ih v hv (depth + 1)
    show run (.outside depth) ('[' :: itemChars items ++ [']'] ++ rest) = _
    rw [List.append_assoc]
    exact hitems
  | object fields ih =>
    have hfields := run_fieldChars (depth + 1) ('\x7d' :: rest) fun e he => ih e he (depth + 1)
    show run (.outside depth) ('\x7b' :: fieldChars fields ++ ['\x7d'] ++ rest) = _
    rw [List.append_assoc]
    exact hfields

end

end Harvest.Json
