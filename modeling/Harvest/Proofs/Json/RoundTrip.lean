/-
  Harvest.Proofs.Json.RoundTrip

  JSON values survive their texts (`readValue_chars`). A value is read back in front of any text
  that cannot be a part of it, if the reader goes as many levels deep as the value nests, its
  numbers are read back, and the fields of its objects are in order of their names. If its numbers
  are read as others, so is the value (`readValue_reread`). Objects are read field by field with
  whatever reads a field (`readFields_chars`), so that records are met by the same lemma.
-/
import Harvest.Json.Read
import Harvest.Proofs.Json.Numeral
import Harvest.Proofs.Outcome

namespace Harvest

/-- A number is read back from its text. -/
def Number.ReadsBack (n : Number) : Prop := Json.readNumber n.chars = .ok (n, [])

/-- The text of a number is read as a number, which need not be the same. -/
def Number.IsRead (n : Number) : Prop := ∃ m, Json.readNumber n.chars = .ok (m, [])

/-- The number that the text of a number is read as. -/
def Number.reread (n : Number) : Number :=
  match Json.readNumber n.chars with
  | .ok (m, _) => m
  | .error _ => n

theorem Number.IsRead.reads {n : Number} (h : n.IsRead) :
    Json.readNumber n.chars = .ok (n.reread, []) := by
  obtain ⟨m, hm⟩ := h
  unfold reread
  rw [hm]

theorem Number.ReadsBack.isRead {n : Number} (h : n.ReadsBack) : n.IsRead := ⟨n, h⟩

@[simp] theorem Number.ReadsBack.reread {n : Number} (h : n.ReadsBack) : n.reread = n := by
  have h : Json.readNumber n.chars = .ok (n, []) := h
  unfold Number.reread
  rw [h]

/-- Fields in order of their names, each name once. -/
def Fields.Ordered (fields : Fields) : Prop := fields.Pairwise fun e f => e.1 < f.1

namespace Json

/-! ## Nesting -/

/-- One value is another one or is somewhere in it. -/
inductive Within (w : Json) : Json → Prop where
  | self : Within w w
  | item {items : List Json} {v : Json} (hv : v ∈ items) (h : Within w v) :
      Within w (.array items)
  | field {fields : Fields} {name : String} {v : Json} (hv : (name, v) ∈ fields)
      (h : Within w v) : Within w (.object fields)

mutual

/-- How many levels deep the arrays and objects of a value nest. -/
def depth : Json → Nat
  | .array items => depthItems items + 1
  | .object fields => depthFields fields + 1
  | _ => 0

/-- How many levels deep the deepest of several values nests. -/
def depthItems : List Json → Nat
  | [] => 0
  | v :: vs => max (depth v) (depthItems vs)

/-- How many levels deep the deepest of the values of fields nests. -/
def depthFields : List (String × Json) → Nat
  | [] => 0
  | (_, v) :: rest => max (depth v) (depthFields rest)

end

theorem depth_le_of_mem_items {items : List Json} {v : Json} (h : v ∈ items) :
    depth v ≤ depthItems items := by
  induction items with
  | nil => cases h
  | cons w items ih =>
    rw [depthItems]
    rcases List.mem_cons.mp h with rfl | h
    · exact Nat.le_max_left _ _
    · exact Nat.le_trans (ih h) (Nat.le_max_right _ _)

theorem depth_le_of_mem_fields {fields : Fields} {name : String} {v : Json}
    (h : (name, v) ∈ fields) : depth v ≤ depthFields fields := by
  induction fields with
  | nil => cases h
  | cons e fields ih =>
    obtain ⟨k, w⟩ := e
    rw [depthFields]
    rcases List.mem_cons.mp h with heq | h
    · cases heq
      exact Nat.le_max_left _ _
    · exact Nat.le_trans (ih h) (Nat.le_max_right _ _)

/-- What holds of a value if it holds of its parts holds of all values. -/
@[elab_as_elim]
theorem parts_induction {motive : Json → Prop} (null : motive .null)
    (bool : ∀ b, motive (.bool b)) (number : ∀ n, motive (.number n))
    (string : ∀ s, motive (.string s))
    (array : ∀ items, (∀ v ∈ items, motive v) → motive (.array items))
    (object : ∀ fields : Fields, (∀ e ∈ fields, motive e.2) → motive (.object fields))
    (v : Json) : motive v := by
  -- The parts of an array or an object nest one level less.
  have hlevels : ∀ levels v, depth v ≤ levels → motive v := by
    intro levels
    induction levels with
    | zero =>
      intro v h
      match v with
      | .null => exact null
      | .bool b => exact bool b
      | .number n => exact number n
      | .string s => exact string s
      | .array items => cases h
      | .object fields => cases h
    | succ levels ih =>
      intro v h
      match v with
      | .null => exact null
      | .bool b => exact bool b
      | .number n => exact number n
      | .string s => exact string s
      | .array items =>
        have hinner : depthItems items ≤ levels := Nat.le_of_succ_le_succ h
        exact array items fun w hw => ih w (Nat.le_trans (depth_le_of_mem_items hw) hinner)
      | .object fields =>
        have hinner : depthFields fields ≤ levels := Nat.le_of_succ_le_succ h
        exact object fields fun e he =>
          ih e.2 (Nat.le_trans (depth_le_of_mem_fields he) hinner)
  exact hlevels v.depth v (Nat.le_refl _)

/-- A value that can be read back: all numbers in it are, and the fields of its objects are in
    order. -/
structure ReadsBack (v : Json) : Prop where
  numbers : ∀ n, Within (.number n) v → n.ReadsBack
  ordered : ∀ fields, Within (.object fields) v → Fields.Ordered fields

theorem ReadsBack.item {items : List Json} {v : Json} (h : ReadsBack (.array items))
    (hv : v ∈ items) : v.ReadsBack where
  numbers := fun n hn => h.numbers n (.item hv hn)
  ordered := fun fields hfields => h.ordered fields (.item hv hfields)

theorem ReadsBack.field {fields : Fields} {name : String} {v : Json}
    (h : ReadsBack (.object fields)) (hv : (name, v) ∈ fields) : v.ReadsBack where
  numbers := fun n hn => h.numbers n (.field hv hn)
  ordered := fun inner hinner => h.ordered inner (.field hv hinner)

/-- A value that can be read: the texts of all numbers in it are read as numbers, and the fields of
    its objects are in order. -/
structure Readable (v : Json) : Prop where
  numbers : ∀ n, Within (.number n) v → n.IsRead
  ordered : ∀ fields, Within (.object fields) v → Fields.Ordered fields

theorem Readable.item {items : List Json} {v : Json} (h : Readable (.array items))
    (hv : v ∈ items) : v.Readable where
  numbers := fun n hn => h.numbers n (.item hv hn)
  ordered := fun fields hfields => h.ordered fields (.item hv hfields)

theorem Readable.field {fields : Fields} {name : String} {v : Json}
    (h : Readable (.object fields)) (hv : (name, v) ∈ fields) : v.Readable where
  numbers := fun n hn => h.numbers n (.field hv hn)
  ordered := fun inner hinner => h.ordered inner (.field hv hinner)

theorem ReadsBack.readable {v : Json} (h : v.ReadsBack) : v.Readable where
  numbers := fun n hn => (h.numbers n hn).isRead
  ordered := h.ordered

mutual

/-- The value with the numbers that the texts of its numbers are read as. -/
def reread : Json → Json
  | .number n => .number n.reread
  | .array items => .array (rereadItems items)
  | .object fields => .object (rereadFields fields)
  | v => v

/-- The items of an array with such numbers. -/
def rereadItems : List Json → List Json
  | [] => []
  | v :: vs => reread v :: rereadItems vs

/-- The fields of an object with such numbers. -/
def rereadFields : List (String × Json) → List (String × Json)
  | [] => []
  | (k, v) :: rest => (k, reread v) :: rereadFields rest

end

theorem rereadItems_eq (items : List Json) : rereadItems items = items.map reread := by
  induction items with
  | nil => rfl
  | cons v items ih => rw [rereadItems, ih, List.map_cons]

theorem rereadFields_eq (fields : Fields) :
    rereadFields fields = fields.map fun e => (e.1, e.2.reread) := by
  induction fields with
  | nil => rfl
  | cons e fields ih =>
    obtain ⟨k, v⟩ := e
    rw [rereadFields, ih, List.map_cons]

/-- A value that is read back is read as it was. -/
theorem ReadsBack.reread {v : Json} (h : v.ReadsBack) : v.reread = v := by
  induction v using parts_induction with
  | null => rfl
  | bool b => rfl
  | number n => simp [Json.reread, (h.numbers n .self).reread]
  | string s => rfl
  | array items ih =>
    have hitems : items.map Json.reread = items.map id :=
      List.map_congr_left fun v hv => ih v hv (h.item hv)
    rw [Json.reread, rereadItems_eq, hitems, List.map_id]
  | object fields ih =>
    have hfields : fields.map (fun e => (e.1, e.2.reread)) = fields.map id :=
      List.map_congr_left fun e he => by rw [ih e he (h.field he)]; rfl
    rw [Json.reread, rereadFields_eq, hfields, List.map_id]

/-! ## Strings -/

theorem hexDigit?_digitChar {d : Nat} (h : d < 16) : hexDigit? (Nat.digitChar d) = some d := by
  have hall : ∀ d : Fin 16, hexDigit? (Nat.digitChar d) = some d.val := by decide
  exact hall ⟨d, h⟩

theorem utf8Size_digitChar {d : Nat} (h : d < 16) : (Nat.digitChar d).utf8Size = 1 := by
  have hall : ∀ d : Fin 16, (Nat.digitChar d).utf8Size = 1 := by decide
  exact hall ⟨d, h⟩

/-- The four digits that a control character is written with are read back. -/
theorem readHex_control {n : Nat} (h : n < 0x20) (rest : List Char) :
    readHex ('0' :: '0' :: Nat.digitChar (n / 16) :: Nat.digitChar (n % 16) :: rest) =
      .ok (n, rest) := by
  have hhigh : n / 16 < 16 := by omega
  have hlow : n % 16 < 16 := by omega
  have hvalue : ((0 * 16 + 0) * 16 + n / 16) * 16 + n % 16 = n := by omega
  have hhex : hexValue? '0' '0' (Nat.digitChar (n / 16)) (Nat.digitChar (n % 16)) = some n := by
    unfold hexValue?
    rw [hexDigit?_digitChar hhigh, hexDigit?_digitChar hlow, show hexDigit? '0' = some 0 from rfl]
    dsimp only
    rw [hvalue]
  have hsize : Utf8.size ['0', '0', Nat.digitChar (n / 16), Nat.digitChar (n % 16)] = 4 := by
    simp [Utf8.size, utf8Size_digitChar hhigh, utf8Size_digitChar hlow,
      show '0'.utf8Size = 1 from rfl]
  unfold readHex
  rw [show List.take 4 ('0' :: '0' :: Nat.digitChar (n / 16) :: Nat.digitChar (n % 16) :: rest) =
    ['0', '0', Nat.digitChar (n / 16), Nat.digitChar (n % 16)] from rfl, hsize]
  simp only [Nat.lt_irrefl, if_false, hhex]

/-- A control character is read back from these digits. -/
theorem readUnicode_control {n : Nat} (h : n < 0x20) (rest : List Char) :
    readUnicode ('0' :: '0' :: Nat.digitChar (n / 16) :: Nat.digitChar (n % 16) :: rest) =
      .ok (Char.ofNat n, rest) := by
  have hread := readHex_control h rest
  -- A control character is no surrogate, so that no second escape has to follow.
  have htrailing : isTrailing n = false := by
    simp only [isTrailing, Bool.and_eq_false_iff, decide_eq_false_iff_not]
    omega
  have hleading : isLeading n = false := by
    simp only [isLeading, Bool.and_eq_false_iff, decide_eq_false_iff_not]
    omega
  unfold readUnicode
  refine (bind_of_ok hread _).trans ?_
  dsimp only
  rw [htrailing, hleading]
  rfl

/-- A character in a string is read back from how it is written there. -/
theorem readStringFrom_escapeChar (fuel : Nat) (read : List Char) (c : Char) (rest : List Char) :
    readStringFrom (fuel + 1) read (escapeChar c ++ rest) =
      readStringFrom fuel (c :: read) rest := by
  unfold escapeChar
  split
  -- The escapes of one letter.
  · rfl
  · rfl
  · rfl
  · rfl
  · rfl
  · rfl
  · rfl
  · next hquote hbackslash _ _ _ _ _ =>
    split
    · next hcontrol =>
      have hescape : readEscape ('u' :: '0' :: '0' :: Nat.digitChar (c.toNat / 16) ::
          Nat.digitChar (c.toNat % 16) :: rest) = .ok (c, rest) := by
        have hread := readUnicode_control hcontrol rest
        rw [Char.ofNat_toNat] at hread
        exact hread
      show readStringFrom (fuel + 1) read ('\\' :: _) = _
      rw [readStringFrom, if_neg (by decide), if_pos rfl]
      exact bind_of_ok hescape _
    · next hplain =>
      have hnotQuote : ¬ c = '"' := fun h => hquote h
      have hnotBackslash : ¬ c = '\\' := fun h => hbackslash h
      show readStringFrom (fuel + 1) read (c :: rest) = _
      rw [readStringFrom, if_neg hnotQuote, if_neg hnotBackslash, if_neg hplain]

theorem readStringFrom_chars {fuel : Nat} (read cs rest : List Char) (h : cs.length < fuel) :
    readStringFrom fuel read (cs.flatMap escapeChar ++ '"' :: rest) =
      .ok (String.ofList (read.reverse ++ cs), rest) := by
  induction cs generalizing fuel read with
  | nil =>
    obtain ⟨spare, rfl⟩ : ∃ spare, fuel = spare + 1 := ⟨fuel - 1, by omega⟩
    rw [List.flatMap_nil, List.nil_append, readStringFrom, if_pos rfl, List.append_nil]
  | cons c cs ih =>
    obtain ⟨spare, rfl⟩ : ∃ spare, fuel = spare + 1 := ⟨fuel - 1, by omega⟩
    have hshorter : cs.length < spare := by
      rw [List.length_cons] at h
      omega
    rw [List.flatMap_cons, List.append_assoc, readStringFrom_escapeChar, ih _ hshorter,
      List.reverse_cons, List.append_assoc, List.singleton_append]

theorem length_le_length_escaped (cs : List Char) :
    cs.length ≤ (cs.flatMap escapeChar).length := by
  induction cs with
  | nil => exact Nat.le_refl 0
  | cons c cs ih =>
    have hpos : 0 < (escapeChar c).length := by
      unfold escapeChar
      split
      all_goals first | exact Nat.succ_pos _ | (split <;> exact Nat.succ_pos _)
    rw [List.flatMap_cons, List.length_append, List.length_cons]
    omega

/-- A string is read back, whatever comes behind it. -/
theorem readString_chars (s : String) (rest : List Char) :
    readString (s.toList.flatMap escapeChar ++ '"' :: rest) = .ok (s, rest) := by
  have hlength := length_le_length_escaped s.toList
  unfold readString
  rw [readStringFrom_chars [] s.toList rest (by rw [List.length_append]; omega),
    List.reverse_nil, List.nil_append, String.ofList_toList]

theorem stringChars_append (s : String) (rest : List Char) :
    stringChars s ++ rest = '"' :: (s.toList.flatMap escapeChar ++ '"' :: rest) := by
  unfold stringChars
  rw [List.append_assoc, List.cons_append, List.singleton_append]

/-! ## The first character of a value -/

/-- How a value is read, by its first character. -/
inductive Begins (array object : Reader Json) : List Char → Json → List Char → Prop where
  | null {cs left : List Char} (h : readWord ['u', 'l', 'l'] cs = .ok ((), left)) :
      Begins array object ('n' :: cs) .null left
  | yes {cs left : List Char} (h : readWord ['r', 'u', 'e'] cs = .ok ((), left)) :
      Begins array object ('t' :: cs) (.bool true) left
  | no {cs left : List Char} (h : readWord ['a', 'l', 's', 'e'] cs = .ok ((), left)) :
      Begins array object ('f' :: cs) (.bool false) left
  | string {cs left : List Char} {s : String} (h : readString cs = .ok (s, left)) :
      Begins array object ('"' :: cs) (.string s) left
  | array {cs left : List Char} {v : Json} (h : array ('[' :: cs) = .ok (v, left)) :
      Begins array object ('[' :: cs) v left
  | object {cs left : List Char} {v : Json} (h : object ('\x7b' :: cs) = .ok (v, left)) :
      Begins array object ('\x7b' :: cs) v left
  | number {cs left : List Char} {n : Number} (h : readNumber cs = .ok (n, left)) :
      Begins array object cs (.number n) left

theorem begins_of_readBy {array object : Reader Json} {cs left : List Char} {v : Json}
    (h : readBy array object cs = .ok (v, left)) : Begins array object (skipSpace cs) v left := by
  unfold readBy at h
  split at h
  · cases h
  · next c rest hc =>
    rw [hc]
    by_cases hnull : c = 'n'
    · rw [if_pos hnull] at h
      obtain ⟨⟨u, behind⟩, hword, h⟩ := of_bind_eq_ok h
      cases h
      rw [hnull]
      exact .null hword
    rw [if_neg hnull] at h
    by_cases hyes : c = 't'
    · rw [if_pos hyes] at h
      obtain ⟨⟨u, behind⟩, hword, h⟩ := of_bind_eq_ok h
      cases h
      rw [hyes]
      exact .yes hword
    rw [if_neg hyes] at h
    by_cases hno : c = 'f'
    · rw [if_pos hno] at h
      obtain ⟨⟨u, behind⟩, hword, h⟩ := of_bind_eq_ok h
      cases h
      rw [hno]
      exact .no hword
    rw [if_neg hno] at h
    by_cases hquote : c = '"'
    · rw [if_pos hquote] at h
      obtain ⟨⟨s, behind⟩, hstring, h⟩ := of_bind_eq_ok h
      cases h
      rw [hquote]
      exact .string hstring
    rw [if_neg hquote] at h
    by_cases hlist : c = '['
    · rw [if_pos hlist] at h
      rw [hlist] at h ⊢
      exact .array h
    rw [if_neg hlist] at h
    by_cases hmap : c = '\x7b'
    · rw [if_pos hmap] at h
      rw [hmap] at h ⊢
      exact .object h
    rw [if_neg hmap] at h
    split at h
    · obtain ⟨⟨n, behind⟩, hnumber, h⟩ := of_bind_eq_ok h
      cases h
      exact .number hnumber
    · cases h

theorem skipSpace_cons {c : Char} (h : isSpace c = false) (cs : List Char) :
    skipSpace (c :: cs) = c :: cs := by
  unfold skipSpace
  rw [List.dropWhile_cons_of_neg (by rw [h]; exact Bool.false_ne_true)]

/-- A character that begins a number begins nothing else. -/
theorem ne_of_beginsNumber {c d : Char} (h : c = '-' ∨ c.isDigit = true)
    (hd : d ≠ '-' ∧ d.isDigit = false) : c ≠ d := by
  rintro rfl
  rcases h with h | h
  · exact hd.1 h
  · rw [hd.2] at h
    cases h

theorem isSpace_of_beginsNumber {c : Char} (h : c = '-' ∨ c.isDigit = true) :
    isSpace c = false := by
  have hblank : c ≠ ' ' := ne_of_beginsNumber h (by decide)
  have hline : c ≠ '\n' := ne_of_beginsNumber h (by decide)
  have htab : c ≠ '\t' := ne_of_beginsNumber h (by decide)
  have hreturn : c ≠ '\r' := ne_of_beginsNumber h (by decide)
  simp [isSpace, hblank, hline, htab, hreturn]

/-- The text of a value begins with no blank, and not as an array ends. -/
theorem chars_head {v : Json} (h : v.Readable) :
    ∃ c cs, v.chars = c :: cs ∧ isSpace c = false ∧ c ≠ ']' := by
  match v with
  | .null => exact ⟨'n', _, rfl, rfl, by decide⟩
  | .bool true => exact ⟨'t', _, rfl, rfl, by decide⟩
  | .bool false => exact ⟨'f', _, rfl, rfl, by decide⟩
  | .number n =>
    obtain ⟨c, cs, hchars, hc⟩ := head_of_readNumber (h.numbers n .self).reads
    exact ⟨c, cs, hchars, isSpace_of_beginsNumber hc, ne_of_beginsNumber hc (by decide)⟩
  | .string s => exact ⟨'"', _, rfl, rfl, by decide⟩
  | .array items => exact ⟨'[', _, rfl, rfl, by decide⟩
  | .object fields => exact ⟨'\x7b', _, rfl, rfl, by decide⟩

theorem readBy_number {c : Char} (h : c = '-' ∨ c.isDigit = true) (array object : Reader Json)
    (cs : List Char) : readBy array object (c :: cs) = (do
      let (n, cs) ← readNumber (c :: cs)
      return (.number n, cs)) := by
  have hn : ¬ c = 'n' := ne_of_beginsNumber h (by decide)
  have ht : ¬ c = 't' := ne_of_beginsNumber h (by decide)
  have hf : ¬ c = 'f' := ne_of_beginsNumber h (by decide)
  have hquote : ¬ c = '"' := ne_of_beginsNumber h (by decide)
  have hbracket : ¬ c = '[' := ne_of_beginsNumber h (by decide)
  have hbrace : ¬ c = '\x7b' := ne_of_beginsNumber h (by decide)
  unfold readBy
  rw [skipSpace_cons (isSpace_of_beginsNumber h)]
  dsimp only
  rw [if_neg hn, if_neg ht, if_neg hf, if_neg hquote, if_neg hbracket, if_neg hbrace, if_pos h]

/-- A value without parts is read, however arrays and objects are read. -/
theorem readBy_chars {v : Json} (hdepth : v.depth = 0) (h : v.Readable)
    (array object : Reader Json) {rest : List Char} (hrest : EndsNumber rest) :
    readBy array object (v.chars ++ rest) = .ok (v.reread, rest) := by
  match v with
  | .null => rfl
  | .bool true => rfl
  | .bool false => rfl
  | .number n =>
    have hreads := (h.numbers n .self).reads
    obtain ⟨c, cs, hchars, hc⟩ := head_of_readNumber hreads
    have hread := readNumber_append hrest hreads
    show readBy array object (n.chars ++ rest) = _
    rw [hchars, List.cons_append] at hread ⊢
    rw [readBy_number hc]
    exact bind_of_ok hread _
  | .string s =>
    show readBy array object (stringChars s ++ rest) = _
    rw [stringChars_append]
    exact bind_of_ok (readString_chars s rest) _
  | .array items => cases hdepth
  | .object fields => cases hdepth

/-- A reader takes the text of a value, in front of anything that cannot be a part of it. -/
def Takes (value : Reader Json) (v : Json) : Prop :=
  ∀ rest, EndsNumber rest → value (v.chars ++ rest) = .ok (v.reread, rest)

/-! ## Arrays -/

/-- The text of an array in front of a rest. -/
theorem chars_array_append (vs : List Json) (rest : List Char) :
    (Json.array vs).chars ++ rest = '[' :: (itemChars vs ++ ']' :: rest) := by
  show ('[' :: itemChars vs ++ [']']) ++ rest = _
  rw [List.append_assoc, List.singleton_append, List.cons_append]

/-- The text between an item and the end of its array. -/
def moreItems : List Json → List Char
  | [] => []
  | v :: vs => ',' :: itemChars (v :: vs)

theorem itemChars_cons (v : Json) (vs : List Json) :
    itemChars (v :: vs) = v.chars ++ moreItems vs := by
  cases vs with
  | nil => rw [itemChars, moreItems, List.append_nil]
  | cons w vs => rfl

theorem length_le_length_moreItems (vs : List Json) :
    (itemChars vs).length ≤ (moreItems vs).length := by
  cases vs with
  | nil => exact Nat.le_refl 0
  | cons v vs => exact Nat.le_succ _

theorem endsNumber_moreItems (vs : List Json) (rest : List Char) :
    EndsNumber (moreItems vs ++ ']' :: rest) := by
  cases vs with
  | nil => exact .cons (by decide) _
  | cons v vs => exact .cons (by decide) _

/-- The next item of an array is read from behind the comma in front of it. -/
theorem readItemStart_more {v : Json} (h : v.Readable) (vs : List Json) (rest : List Char) :
    readItemStart false (moreItems (v :: vs) ++ ']' :: rest) =
      .ok (true, v.chars ++ (moreItems vs ++ ']' :: rest)) := by
  -- The first character of the item closes no array.
  obtain ⟨c, cs, hchars, hspace, hclose⟩ := chars_head h
  rw [moreItems, itemChars_cons, hchars]
  unfold readItemStart
  rw [List.cons_append, skipSpace_cons rfl]
  dsimp only [List.cons_append]
  rw [if_neg (by decide), if_neg (by decide), if_pos rfl, skipSpace_cons hspace]
  dsimp only
  rw [if_neg hclose, List.append_assoc]

/-- The first item of an array is read from behind its bracket. -/
theorem readItemStart_items {v : Json} (h : v.Readable) (vs : List Json) (rest : List Char) :
    readItemStart true (itemChars (v :: vs) ++ ']' :: rest) =
      .ok (true, v.chars ++ (moreItems vs ++ ']' :: rest)) := by
  obtain ⟨c, cs, hchars, hspace, hclose⟩ := chars_head h
  rw [itemChars_cons, hchars]
  unfold readItemStart
  rw [List.cons_append, List.cons_append, skipSpace_cons hspace]
  dsimp only
  rw [if_neg hclose, if_pos rfl, List.append_assoc, List.cons_append]

section

variable {item : Reader Json} {vs : List Json} (hback : ∀ v ∈ vs, v.Readable)
  (hread : ∀ v ∈ vs, Takes item v)

include hback hread

theorem readItems_more {fuel : Nat} (hfuel : vs.length < fuel) (rest : List Char) :
    readItems item fuel false (moreItems vs ++ ']' :: rest) = .ok (vs.map reread, rest) := by
  induction vs generalizing fuel with
  | nil =>
    obtain ⟨spare, rfl⟩ : ∃ spare, fuel = spare + 1 := ⟨fuel - 1, by omega⟩
    rfl
  | cons v vs ih =>
    obtain ⟨spare, rfl⟩ : ∃ spare, fuel = spare + 1 := ⟨fuel - 1, by omega⟩
    have hstart := readItemStart_more (hback v List.mem_cons_self) vs rest
    have hfirst := hread v List.mem_cons_self _ (endsNumber_moreItems vs rest)
    have hspare : vs.length < spare := by simpa using hfuel
    have hothers := ih (fun w hw => hback w (List.mem_cons_of_mem v hw))
      (fun w hw => hread w (List.mem_cons_of_mem v hw)) hspare
    unfold readItems
    refine (bind_of_ok hstart _).trans ?_
    refine (bind_of_ok hfirst _).trans ?_
    exact bind_of_ok hothers _

/-- The items of an array are read from behind its opening bracket. -/
theorem readItems_chars {fuel : Nat} (hfuel : vs.length < fuel) (rest : List Char) :
    readItems item fuel true (itemChars vs ++ ']' :: rest) = .ok (vs.map reread, rest) := by
  obtain ⟨spare, rfl⟩ : ∃ spare, fuel = spare + 1 := ⟨fuel - 1, by omega⟩
  cases vs with
  | nil => rfl
  | cons v vs =>
    have hstart := readItemStart_items (hback v List.mem_cons_self) vs rest
    have hfirst := hread v List.mem_cons_self _ (endsNumber_moreItems vs rest)
    have hspare : vs.length < spare := by simpa using hfuel
    have hothers := readItems_more (fun w hw => hback w (List.mem_cons_of_mem v hw))
      (fun w hw => hread w (List.mem_cons_of_mem v hw)) hspare rest
    unfold readItems
    refine (bind_of_ok hstart _).trans ?_
    refine (bind_of_ok hfirst _).trans ?_
    exact bind_of_ok hothers _

end

theorem length_le_length_itemChars {vs : List Json} (h : ∀ v ∈ vs, v.Readable) :
    vs.length ≤ (itemChars vs).length := by
  induction vs with
  | nil => exact Nat.le_refl 0
  | cons v vs ih =>
    obtain ⟨c, cs, hchars, -, -⟩ := chars_head (h v List.mem_cons_self)
    have hrest := ih fun w hw => h w (List.mem_cons_of_mem v hw)
    have hmore := length_le_length_moreItems vs
    rw [itemChars_cons, hchars, List.length_append, List.length_cons, List.length_cons]
    omega

/-- The characters of an array are enough for all of its items to be read. -/
theorem items_fit {vs : List Json} (h : ∀ v ∈ vs, v.Readable) (rest : List Char) :
    vs.length < (itemChars vs ++ rest).length + 1 := by
  have hlength := length_le_length_itemChars h
  rw [List.length_append]
  omega

/-- An array is read from its opening bracket on. -/
theorem readArray_chars {item : Reader Json} {vs : List Json} (hback : ∀ v ∈ vs, v.Readable)
    (hread : ∀ v ∈ vs, Takes item v) (rest : List Char) :
    readArray item ('[' :: (itemChars vs ++ ']' :: rest)) = .ok (.array (vs.map reread), rest) :=
  bind_of_ok (readItems_chars hback hread (items_fit hback _) rest) _

/-! ## Objects -/

/-- The text of an object in front of a rest. -/
theorem chars_object_append (fs : Fields) (rest : List Char) :
    (Json.object fs).chars ++ rest = '\x7b' :: (fieldChars fs ++ '\x7d' :: rest) := by
  show ('\x7b' :: fieldChars fs ++ ['\x7d']) ++ rest = _
  rw [List.append_assoc, List.singleton_append, List.cons_append]

/-- The text between a field and the end of its object. -/
def moreFields : Fields → List Char
  | [] => []
  | f :: fs => ',' :: fieldChars (f :: fs)

theorem fieldChars_cons (name : String) (v : Json) (fs : Fields) :
    fieldChars ((name, v) :: fs) = stringChars name ++ (':' :: v.chars ++ moreFields fs) := by
  cases fs with
  | nil => rw [fieldChars, moreFields, List.append_nil]
  | cons f fs =>
    rw [fieldChars, moreFields, List.append_assoc]
    exact nofun

theorem length_le_length_moreFields (fs : Fields) :
    (fieldChars fs).length ≤ (moreFields fs).length := by
  cases fs with
  | nil => exact Nat.le_refl 0
  | cons f fs => exact Nat.le_succ _

theorem endsNumber_moreFields (fs : Fields) (rest : List Char) :
    EndsNumber (moreFields fs ++ '\x7d' :: rest) := by
  cases fs with
  | nil => exact .cons (by decide) _
  | cons f fs => exact .cons (by decide) _

/-- The name of the next field of an object is read from behind the comma in front of it. -/
theorem readName?_more (f : String × Json) (fs : Fields) (rest : List Char) :
    readName? false (moreFields (f :: fs) ++ '\x7d' :: rest) =
      .ok (some f.1, ':' :: f.2.chars ++ (moreFields fs ++ '\x7d' :: rest)) := by
  rw [moreFields, fieldChars_cons, List.cons_append, List.append_assoc, stringChars_append,
    ← List.append_assoc]
  exact bind_of_ok (readString_chars f.1 _) _

/-- The name of the first field of an object is read from behind its brace. -/
theorem readName?_fields (f : String × Json) (fs : Fields) (rest : List Char) :
    readName? true (fieldChars (f :: fs) ++ '\x7d' :: rest) =
      .ok (some f.1, ':' :: f.2.chars ++ (moreFields fs ++ '\x7d' :: rest)) := by
  rw [fieldChars_cons, List.append_assoc, stringChars_append, ← List.append_assoc]
  exact bind_of_ok (readString_chars f.1 _) _

/-- Reading several fields one after the other leads from one state to another. -/
inductive Feeds {σ : Type} (field : String → σ → Reader σ) : σ → Fields → σ → Prop where
  | nil (s : σ) : Feeds field s [] s
  | cons {s t u : σ} {name : String} {v : Json} {fs : Fields}
      (h : ∀ rest, EndsNumber rest → field name s (':' :: v.chars ++ rest) = .ok (t, rest))
      (hrest : Feeds field t fs u) : Feeds field s ((name, v) :: fs) u

section

variable {σ : Type} {field : String → σ → Reader σ} {s u : σ} {fs : Fields}

theorem readFields_more (h : Feeds field s fs u) {fuel : Nat} (hfuel : fs.length < fuel)
    (rest : List Char) :
    readFields field fuel false s (moreFields fs ++ '\x7d' :: rest) = .ok (u, rest) := by
  induction h generalizing fuel with
  | nil s =>
    obtain ⟨spare, rfl⟩ : ∃ spare, fuel = spare + 1 := ⟨fuel - 1, by omega⟩
    rfl
  | @cons s t u name v fs h hrest ih =>
    obtain ⟨spare, rfl⟩ : ∃ spare, fuel = spare + 1 := ⟨fuel - 1, by omega⟩
    have hname := readName?_more (name, v) fs rest
    have hfield := h _ (endsNumber_moreFields fs rest)
    have hspare : fs.length < spare := by simpa using hfuel
    have hothers := ih hspare
    unfold readFields
    refine (bind_of_ok hname _).trans ?_
    refine (bind_of_ok hfield _).trans ?_
    exact hothers

/-- The fields of an object are read from behind its opening brace. -/
theorem readFields_chars (h : Feeds field s fs u) {fuel : Nat} (hfuel : fs.length < fuel)
    (rest : List Char) :
    readFields field fuel true s (fieldChars fs ++ '\x7d' :: rest) = .ok (u, rest) := by
  obtain ⟨spare, rfl⟩ : ∃ spare, fuel = spare + 1 := ⟨fuel - 1, by omega⟩
  cases h with
  | nil => rfl
  | @cons s t u name v fs h hrest =>
    have hname := readName?_fields (name, v) fs rest
    have hfield := h _ (endsNumber_moreFields fs rest)
    have hspare : fs.length < spare := by simpa using hfuel
    have hothers := readFields_more hrest hspare rest
    unfold readFields
    refine (bind_of_ok hname _).trans ?_
    refine (bind_of_ok hfield _).trans ?_
    exact hothers

end

theorem length_le_length_fieldChars (fs : Fields) : fs.length ≤ (fieldChars fs).length := by
  induction fs with
  | nil => exact Nat.le_refl 0
  | cons f fs ih =>
    obtain ⟨name, v⟩ := f
    have hmore := length_le_length_moreFields fs
    rw [fieldChars_cons, List.length_append, List.length_append, List.length_cons,
      List.length_cons]
    omega

/-- The characters of an object are enough for all of its fields to be read. -/
theorem fields_fit (fs : Fields) (rest : List Char) :
    fs.length < (fieldChars fs ++ rest).length + 1 := by
  have hlength := length_le_length_fieldChars fs
  rw [List.length_append]
  omega

theorem readColon_cons (rest : List Char) : readColon (':' :: rest) = .ok ((), rest) := rfl

end Json

namespace Fields

/-- A field with a name greater than all others comes last. -/
theorem insert_of_greatest {fields : Fields} {name : String} (h : ∀ e ∈ fields, e.1 < name)
    (value : Json) : fields.insert name value = fields ++ [(name, value)] := by
  induction fields with
  | nil => rfl
  | cons e fields ih =>
    obtain ⟨k, v⟩ := e
    have hk : k < name := h (k, v) List.mem_cons_self
    have hne : ¬ name = k := by
      rintro rfl
      exact String.lt_irrefl name hk
    have hnot : ¬ name < k := String.lt_asymm hk
    unfold insert
    rw [if_neg hne, if_neg hnot, ih fun f hf => h f (List.mem_cons_of_mem _ hf), List.cons_append]

theorem insertAll_append (before : Fields) {fields : Fields}
    (h : Ordered (before ++ fields)) : insertAll before fields = before ++ fields := by
  induction fields generalizing before with
  | nil => rw [List.append_nil]; rfl
  | cons e fields ih =>
    have hgreatest : ∀ f ∈ before, f.1 < e.1 := by
      intro f hf
      exact (List.pairwise_append.mp h).2.2 f hf e List.mem_cons_self
    have hmoved : before ++ e :: fields = (before ++ [e]) ++ fields := by
      rw [List.append_assoc, List.singleton_append]
    rw [hmoved] at h ⊢
    show insertAll (before.insert e.1 e.2) fields = _
    rw [insert_of_greatest hgreatest]
    exact ih _ h

/-- Putting in fields that are in order gives just those fields. -/
theorem insertAll_ordered {fields : Fields} (h : Ordered fields) :
    insertAll [] fields = fields := insertAll_append [] h

end Fields

namespace Json

/-- A field is put in under its name. -/
theorem readFieldInto_chars {value : Reader Json} {v : Json} (h : Takes value v) (name : String)
    (before : Fields) {rest : List Char} (hrest : EndsNumber rest) :
    readFieldInto value name before (':' :: v.chars ++ rest) =
      .ok (before.insert name v.reread, rest) := by
  have hvalue := h rest hrest
  unfold readFieldInto
  refine (bind_of_ok (readColon_cons _) _).trans ?_
  exact bind_of_ok hvalue _

/-- The fields of an object are put in one by one. -/
theorem feeds_insertAll {value : Reader Json} {fs : Fields} (h : ∀ e ∈ fs, Takes value e.2)
    (before : Fields) :
    Feeds (readFieldInto value) before fs (before.insertAll (rereadFields fs)) := by
  induction fs generalizing before with
  | nil => exact .nil before
  | cons e fs ih =>
    obtain ⟨name, v⟩ := e
    have hfirst : Takes value v := h (name, v) List.mem_cons_self
    exact .cons (fun rest hrest => readFieldInto_chars hfirst name before hrest)
      (ih (fun f hf => h f (List.mem_cons_of_mem _ hf)) (before.insert name v.reread))

/-- An object is read from its opening brace on, and has its fields put in one by one. -/
theorem readObject_chars {value : Reader Json} {fs : Fields} (h : ∀ e ∈ fs, Takes value e.2)
    (rest : List Char) :
    readObject value ('\x7b' :: (fieldChars fs ++ '\x7d' :: rest)) =
      .ok (.object (Fields.insertAll [] (rereadFields fs)), rest) :=
  bind_of_ok (readFields_chars (feeds_insertAll h []) (fields_fit fs _) rest) _

theorem ordered_rereadFields {fields : Fields} (h : Fields.Ordered fields) :
    Fields.Ordered (rereadFields fields) := by
  rw [rereadFields_eq]
  exact List.pairwise_map.mpr h

/-- A value is read by a reader that goes as deep as it nests. -/
theorem readValue_reread {levels : Nat} {v : Json} (hdepth : v.depth ≤ levels) (h : v.Readable)
    {rest : List Char} (hrest : EndsNumber rest) :
    readValue levels (v.chars ++ rest) = .ok (v.reread, rest) := by
  -- The parts of an array or an object nest one level less.
  induction levels generalizing v rest with
  | zero => exact readBy_chars (Nat.le_zero.mp hdepth) h _ _ hrest
  | succ levels ih =>
    match v with
    | .null => exact readBy_chars rfl h _ _ hrest
    | .bool b => exact readBy_chars rfl h _ _ hrest
    | .number n => exact readBy_chars rfl h _ _ hrest
    | .string s => exact readBy_chars rfl h _ _ hrest
    | .array items =>
      have hinner : depthItems items ≤ levels := Nat.le_of_succ_le_succ hdepth
      have hback : ∀ w ∈ items, w.Readable := fun w hw => h.item hw
      have hread : ∀ w ∈ items, Takes (readValue levels) w := fun w hw rest hrest =>
        ih (Nat.le_trans (depth_le_of_mem_items hw) hinner) (hback w hw) hrest
      rw [chars_array_append, reread, rereadItems_eq]
      exact readArray_chars hback hread rest
    | .object fields =>
      have hinner : depthFields fields ≤ levels := Nat.le_of_succ_le_succ hdepth
      have hread : ∀ e ∈ fields, Takes (readValue levels) e.2 := fun e he rest hrest =>
        ih (Nat.le_trans (depth_le_of_mem_fields he) hinner) (h.field he) hrest
      have hobject := readObject_chars hread rest
      rw [Fields.insertAll_ordered (ordered_rereadFields (h.ordered fields .self))] at hobject
      rw [chars_object_append]
      exact hobject

/-- A value is read back by a reader that goes as deep as it nests. -/
theorem readValue_chars {levels : Nat} {v : Json} (hdepth : v.depth ≤ levels) (h : v.ReadsBack)
    {rest : List Char} (hrest : EndsNumber rest) :
    readValue levels (v.chars ++ rest) = .ok (v, rest) := by
  rw [readValue_reread hdepth h.readable hrest, h.reread]

/-- The text of a value is that of no other value. -/
theorem ofChars_chars {v : Json} (hdepth : v.depth ≤ nestingLimit) (h : v.ReadsBack) :
    ofChars v.chars = .ok v := by
  have hread := readValue_chars hdepth h .nil
  rw [List.append_nil] at hread
  unfold ofChars readWhole
  rw [hread]
  rfl

end Json
end Harvest
