/-
  Harvest.Proofs.Json.Documents

  Shapes read back what was written. A shape reads a value back if it takes the text of a JSON
  value off the front of any text that goes on behind it in another way, and gives the value for it
  (`Shape.Reads`). There is one lemma for each kind of single value, and for values that may be
  missing; a record is read back if its fields are written in the order of its layout and each of
  them is read back by its own shape (`Shape.reads_record`). A whole document is then read back from
  its text (`Shape.Reads.ofText`).
-/
import Harvest.Json.Record
import Harvest.Proofs.Calendar.Relaxed
import Harvest.Proofs.Json.Parsed

namespace Harvest.Json

/-- A shape reads a value from the text of a JSON value, in front of anything that cannot be a part
    of it. -/
def Shape.Reads {α : Type} (s : Shape α) (levels : Nat) (v : Json) (a : α) : Prop :=
  ∀ rest, EndsNumber rest → s.read levels (v.chars ++ rest) = .ok (a, rest)

namespace Shape

section

variable {α β : Type} {s : Shape α} {levels : Nat} {v : Json} {a : α}

theorem Reads.map (h : s.Reads levels v a) (f : α → β) : (s.map f).Reads levels v (f a) :=
  fun rest hrest => bind_of_ok (h rest hrest) _

theorem Reads.refine (h : s.Reads levels v a) {f : α → Except Mismatch β} {b : β}
    (hf : f a = .ok b) : (s.refine f).Reads levels v b := by
  intro rest hrest
  refine (bind_of_ok (h rest hrest) _).trans ?_
  dsimp only
  rw [hf]
  rfl

/-- The value of a whole text is read, with blanks behind it. -/
theorem Reads.ofChars (h : s.Reads nestingLimit v a) {blanks : List Char}
    (hends : EndsNumber blanks) (hblank : skipSpace blanks = []) :
    s.ofChars (v.chars ++ blanks) = .ok a := by
  unfold Shape.ofChars readWhole
  rw [h blanks hends]
  dsimp only
  rw [hblank]

/-- The value of a text is that of which it is the text. -/
theorem Reads.ofText (h : s.Reads nestingLimit v a) : s.ofText v.text = .ok a := by
  have hread := h.ofChars .nil rfl
  rw [List.append_nil] at hread
  unfold Shape.ofText Json.text
  rw [String.toList_ofList, hread]

end

/-! ## Single values -/

section

variable {levels : Nat}

theorem reads_string (expected s : String) : (string expected).Reads levels (.string s) s := by
  intro rest _
  show (string expected).read levels (stringChars s ++ rest) = _
  rw [stringChars_append]
  exact readString_chars s rest

theorem reads_text (s : String) : text.Reads levels (.string s) s := reads_string "a string" s

theorem reads_flag (b : Bool) : flag.Reads levels (.bool b) b := by
  intro rest _
  cases b with
  | false => rfl
  | true => rfl

/-- A date is read from its text. -/
theorem reads_date {t : Calendar.Instant} (h : t.Shows) :
    date.Reads levels (.string t.text) t := by
  apply (reads_string _ t.text).refine
  rw [Calendar.Instant.ofRelaxed_text h]
  rfl

/-- A number is read as what its text is read as. -/
theorem reads_number {n m : Number} (h : readNumber n.chars = .ok (m, [])) (expected : String) :
    (number expected).Reads levels (.number n) m := by
  intro rest hrest
  obtain ⟨c, cs, hchars, hc⟩ := head_of_readNumber h
  have hread := readNumber_append hrest h
  show (number expected).read levels (n.chars ++ rest) = _
  rw [hchars, List.cons_append] at hread ⊢
  unfold number
  dsimp only
  rw [skipSpace_cons (isSpace_of_beginsNumber hc)]
  dsimp only
  rw [if_pos hc]
  exact hread

/-- A whole number between the bounds is read, if it has sixty-four bits at most. -/
theorem reads_whole {n least greatest : Int} (hfits : Number.Fits n)
    (hbounds : least ≤ n ∧ n ≤ greatest) (expected : String) :
    (whole expected least greatest).Reads levels (.ofInt n) n :=
  (reads_number (readsBack_of_fits hfits) expected).refine (if_pos hbounds)

theorem reads_signed64 {n : Int} (h : Number.leastSigned64 ≤ n ∧ n ≤ Number.greatestSigned64) :
    signed64.Reads levels (.ofInt n) n := by
  have hgreatest : Number.greatestSigned64 ≤ (Number.greatestUnsigned64 : Int) := by decide
  exact reads_whole ⟨h.1, by omega⟩ h "i64"

/-- A whole number without sign is read. -/
theorem reads_unsigned {n greatest : Nat} (h : n ≤ greatest)
    (hgreatest : greatest ≤ Number.greatestUnsigned64) (expected : String) :
    ((whole expected 0 greatest).map Int.toNat).Reads levels (.ofNat n) n := by
  have hleast : Number.leastSigned64 ≤ 0 := by decide
  have hread : (whole expected 0 greatest).Reads levels (.ofInt n) (n : Int) :=
    reads_whole ⟨by omega, by omega⟩ ⟨by omega, by omega⟩ expected
  exact hread.map Int.toNat

theorem reads_unsigned64 {n : Nat} (h : n ≤ Number.greatestUnsigned64) :
    unsigned64.Reads levels (.ofNat n) n := reads_unsigned h (Nat.le_refl _) "u64"

theorem reads_unsigned32 {n : Nat} (h : n ≤ Number.greatestUnsigned32) :
    unsigned32.Reads levels (.ofNat n) n := reads_unsigned h (by decide) "u32"

/-- A floating-point number is read if its text is read back. -/
theorem reads_real {x : Float} (hfinite : x.isFinite = true) (h : (Number.real x).ReadsBack) :
    real.Reads levels (.ofFloat x) x := by
  unfold Json.ofFloat
  rw [if_pos hfinite]
  exact (reads_number h "f64").map Number.toFloat

/-- Any value is read that nests no deeper than the reader goes. -/
theorem reads_any {v : Json} (hdepth : v.depth ≤ levels) (h : v.Readable) :
    any.Reads levels v v.reread :=
  fun _ hrest => readValue_reread hdepth h hrest

/-- The fields of an object are read that nests no deeper than the reader goes. -/
theorem reads_fields {fs : Fields} (hdepth : (Json.object fs).depth ≤ levels)
    (h : (Json.object fs).ReadsBack) : fields.Reads levels (.object fs) fs := by
  obtain ⟨inner, rfl⟩ : ∃ inner, levels = inner + 1 :=
    ⟨levels - 1, by rw [depth] at hdepth; omega⟩
  have hinner : depthFields fs ≤ inner := Nat.le_of_succ_le_succ hdepth
  have htakes : ∀ e ∈ fs, Takes (readValue inner) e.2 := fun e he rest hrest =>
    readValue_reread (Nat.le_trans (depth_le_of_mem_fields he) hinner) (h.field he).readable hrest
  have hsame : rereadFields fs = fs := Json.object.inj h.reread
  intro rest hrest
  have hread := readFields_chars (feeds_insertAll htakes []) (fields_fit fs ('\x7d' :: rest)) rest
  rw [hsame, Fields.insertAll_ordered (h.ordered fs .self)] at hread
  rw [chars_object_append]
  exact hread

end

/-! ## Values that may be missing -/

section

variable {α : Type} {s : Shape α} {levels : Nat}

/-- The text of a value cannot be taken for that of a missing one. -/
def Present (v : Json) : Prop := ∃ c cs, v.chars = c :: cs ∧ isSpace c = false ∧ c ≠ 'n'

theorem present_string (s : String) : Present (.string s) := ⟨'"', _, rfl, rfl, by decide⟩

theorem present_object (fs : Fields) : Present (.object fs) := ⟨'\x7b', _, rfl, rfl, by decide⟩

theorem present_number {n : Number} (h : n.IsRead) : Present (.number n) := by
  obtain ⟨c, cs, hchars, hc⟩ := head_of_readNumber h.reads
  exact ⟨c, cs, hchars, isSpace_of_beginsNumber hc, ne_of_beginsNumber hc (by decide)⟩

/-- A value that may be missing is read back if it is read back where it is there. -/
theorem reads_nullable {f : α → Json} {a? : Option α}
    (h : ∀ a, a? = some a → s.Reads levels (f a) a ∧ Present (f a)) :
    s.nullable.Reads levels (.ofOption f a?) a? := by
  intro rest hrest
  cases a? with
  | none => rfl
  | some a =>
    obtain ⟨hread, c, cs, hchars, hspace, hc⟩ := h a rfl
    have hvalue := hread rest hrest
    show s.nullable.read levels ((f a).chars ++ rest) = _
    rw [hchars, List.cons_append] at hvalue ⊢
    unfold nullable
    dsimp only
    rw [skipSpace_cons hspace]
    split
    · next heq =>
      injection heq with heq
      exact absurd heq hc
    · exact bind_of_ok hvalue _

end

end Shape

/-! ## Records -/

namespace Layout

section

variable {β γ δ : Type} {levels : Nat} {shape : Shape β} {absent : Absent β} {rest : Layout γ δ}

/-- A field of a known name is read, unless there was one already. -/
theorem readInto_self {known : String} {draft : δ} {cs left : List Char} {b : β}
    (h : shape.read levels cs = .ok (b, left)) :
    readInto levels known (.field known shape absent rest) (none, draft) (':' :: cs) =
      .ok ((some b, draft), left) := by
  rw [readInto, if_pos rfl, if_neg (by simp)]
  refine (bind_of_ok (readColon_cons cs) _).trans ?_
  exact bind_of_ok h _

/-- A field of another name is left to the rest of the layout. -/
theorem readInto_other {known name : String} {b? : Option β} {draft draft' : δ}
    {cs left : List Char} (hname : ¬ name = known)
    (h : rest.readInto levels name draft cs = .ok (draft', left)) :
    readInto levels name (.field known shape absent rest) (b?, draft) cs =
      .ok ((b?, draft'), left) := by
  rw [readInto, if_neg hname]
  exact bind_of_ok h _

/-- Fields of other names are left to the rest of the layout. -/
theorem feeds_other {known : String} {b? : Option β} {draft draft' : δ} {fs : Fields}
    (hnames : known ∉ fs.map Prod.fst)
    (h : Feeds (fun name => rest.readInto levels name) draft fs draft') :
    Feeds (fun name => (field known shape absent rest).readInto levels name) (b?, draft) fs
      (b?, draft') := by
  induction h with
  | nil draft => exact .nil _
  | cons h _ ih =>
    rw [List.map_cons, List.mem_cons, not_or] at hnames
    exact .cons (fun behind hbehind => readInto_other (Ne.symm hnames.1) (h behind hbehind))
      (ih hnames.2)

end

/-- The names of the fields of a record. -/
def names {α δ : Type} : Layout α δ → List String
  | .done => []
  | .field name _ _ rest => name :: rest.names

/-- The draft in which every field is read. -/
def full {α δ : Type} : Layout α δ → α → δ
  | .done, () => ()
  | .field _ _ _ rest, (b, c) => (some b, rest.full c)

/-- Fields that are written in the order of a layout, each so that its shape reads its value. -/
inductive Written (levels : Nat) : {α δ : Type} → Layout α δ → Fields → α → Prop where
  | done : Written levels .done [] ()
  | field {β γ δ : Type} {name : String} {shape : Shape β} {absent : Absent β}
      {rest : Layout γ δ} {v : Json} {b : β} {more : Fields} {c : γ}
      (h : shape.Reads levels v b) (hrest : Written levels rest more c) :
      Written levels (.field name shape absent rest) ((name, v) :: more) (b, c)

section

variable {α δ : Type} {levels : Nat} {l : Layout α δ} {fs : Fields} {a : α}

theorem Written.names_eq (h : l.Written levels fs a) : fs.map Prod.fst = l.names := by
  induction h with
  | done => rfl
  | field h hrest ih => rw [List.map_cons, ih, names]

/-- A record that is full has no field to make up. -/
theorem finish_full (l : Layout α δ) (a : α) : l.finish (l.full a) = .ok a := by
  induction l with
  | done => rfl
  | field name shape absent rest ih =>
    obtain ⟨b, c⟩ := a
    refine (bind_of_ok rfl _).trans ?_
    exact bind_of_ok (ih c) _

/-- Fields in the order of a layout fill its draft one by one. -/
theorem Written.feeds (h : l.Written levels fs a) (hnames : l.names.Nodup) :
    Feeds (fun name => l.readInto levels name) l.blank fs (l.full a) := by
  induction h with
  | done => exact .nil ()
  | field h hrest ih =>
    rw [names, List.nodup_cons] at hnames
    refine .cons (fun behind hbehind => readInto_self (h behind hbehind)) ?_
    refine feeds_other ?_ (ih hnames.2)
    rw [hrest.names_eq]
    exact hnames.1

end

end Layout

/-- A record is read from an object whose fields are written in the order of its layout. -/
theorem Shape.reads_record {α δ : Type} {levels : Nat} {l : Layout α δ} {fs : Fields} {a : α}
    (hnames : l.names.Nodup) (h : l.Written levels fs a) (name : String) :
    (Shape.record name l).Reads (levels + 1) (.object fs) a := by
  intro rest _
  have hread := readFields_chars (h.feeds hnames) (fields_fit fs ('\x7d' :: rest)) rest
  have hobject : l.readObject (levels + 1) ('\x7b' :: (fieldChars fs ++ '\x7d' :: rest)) =
      .ok (a, rest) := by
    refine (bind_of_ok hread _).trans ?_
    dsimp only
    rw [Layout.finish_full]
    rfl
  rw [chars_object_append]
  exact hobject

end Harvest.Json
