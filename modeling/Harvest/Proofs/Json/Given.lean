/-
  Harvest.Proofs.Json.Given

  What documents give. Whatever text a shape reads a value from, the value is one that the shape can
  give (`Shape.Gives`): a number within its bounds, an instant that can be shown, or fields that
  nest no deeper than the reader goes. A record is told by its fields (`Shape.gives_record`), be it
  an object or an array, and be the value of a field read or the one that it falls back on.
-/
import Harvest.Proofs.Calendar.Denoted
import Harvest.Proofs.Json.Balanced
import Harvest.Proofs.Json.TooDeep

namespace Harvest.Json

/-- Every value that a shape reads is as told. -/
def Shape.Gives {α : Type} (s : Shape α) (levels : Nat) (P : α → Prop) : Prop :=
  ∀ cs a left, s.read levels cs = .ok (a, left) → P a

/-! ## Single values -/

namespace Shape

section

variable {α β : Type} {s : Shape α} {levels : Nat} {P : α → Prop} {Q : β → Prop}

theorem gives_true : s.Gives levels fun _ => True := fun _ _ _ _ => trivial

theorem Gives.map (h : s.Gives levels P) {f : α → β} (hf : ∀ a, P a → Q (f a)) :
    (s.map f).Gives levels Q := by
  intro cs b left hread
  obtain ⟨⟨a, behind⟩, ha, hread⟩ := of_bind_eq_ok hread
  cases hread
  exact hf a (h cs a _ ha)

theorem gives_refine {f : α → Except Mismatch β} (hf : ∀ a b, f a = .ok b → Q b) :
    (s.refine f).Gives levels Q := by
  intro cs b left hread
  obtain ⟨⟨a, behind⟩, -, hread⟩ := of_bind_eq_ok hread
  exact hf a b (of_placed_eq_ok hread).1

theorem Gives.nullable (h : s.Gives levels P) :
    s.nullable.Gives levels fun a? => ∀ a, a? = some a → P a := by
  intro cs a? left hread
  unfold Shape.nullable at hread
  dsimp only at hread
  split at hread
  · obtain ⟨⟨u, behind⟩, -, hread⟩ := of_bind_eq_ok hread
    cases hread
    exact nofun
  · obtain ⟨⟨a, behind⟩, ha, hread⟩ := of_bind_eq_ok hread
    cases hread
    rintro _ ⟨⟩
    exact h _ a behind ha

end

variable {levels : Nat}

theorem gives_whole (expected : String) (least greatest : Int) :
    (whole expected least greatest).Gives levels fun n => least ≤ n ∧ n ≤ greatest := by
  apply gives_refine
  intro number n hn
  split at hn
  · split at hn
    · next hbounds =>
      cases hn
      exact hbounds
    · cases hn
  · cases hn

theorem gives_unsigned32 : unsigned32.Gives levels fun n => n ≤ Number.greatestUnsigned32 := by
  refine (gives_whole "u32" 0 Number.greatestUnsigned32).map fun n h => ?_
  omega

theorem gives_date : date.Gives levels Calendar.Instant.Shows := by
  apply gives_refine
  intro s t ht
  cases hread : Calendar.Instant.ofRelaxed s.toList with
  | error fault =>
    rw [hread] at ht
    cases ht
  | ok t' =>
    rw [hread] at ht
    cases ht
    exact Calendar.Instant.shows_of_ofRelaxed hread

theorem gives_fields :
    fields.Gives levels fun fs => (Json.object fs).Parsed ∧ (Json.object fs).depth ≤ levels := by
  intro cs fs left hread
  unfold Shape.fields at hread
  dsimp only at hread
  split at hread
  · cases levels with
    | zero => cases hread
    | succ levels =>
      refine ⟨parsed_readFields (fun _ _ _ h => parsed_readValue h) hread, ?_⟩
      refine Nat.succ_le_succ (depthFields_le fun f hf => ?_)
      obtain ⟨_, _, hvalue⟩ := of_mem_readFields hread f hf
      exact depth_le_of_readValue hvalue
  · exact absurd hread readOther_ne_ok

end Shape

/-! ## Records -/

/-- The value of a field that is not there, if it has one, is as told. -/
def Absent.Gives {β : Type} (P : β → Prop) : Absent β → Prop
  | .refused => True
  | .optional b => P b
  | .fallback b => P b

namespace Layout

/-- Every record of a layout is as told, and so is every draft of one. -/
inductive Gives (levels : Nat) : {α δ : Type} → Layout α δ → (α → Prop) → (δ → Prop) → Prop where
  | done : Gives levels .done (fun _ => True) (fun _ => True)
  | field {β γ δ : Type} {name : String} {shape : Shape β} {absent : Absent β}
      {rest : Layout γ δ} {P : β → Prop} {Q : γ → Prop} {D : δ → Prop}
      (h : shape.Gives levels P) (habsent : absent.Gives P) (hrest : Gives levels rest Q D) :
      Gives levels (.field name shape absent rest) (fun a => P a.1 ∧ Q a.2)
        (fun draft => (∀ b, draft.1 = some b → P b) ∧ D draft.2)

variable {α δ : Type} {levels : Nat} {l : Layout α δ} {P : α → Prop} {D : δ → Prop}

theorem Gives.blank (h : l.Gives levels P D) : D l.blank := by
  induction h with
  | done => trivial
  | field h habsent hrest ih => exact ⟨nofun, ih⟩

/-- A field that is read leaves the draft as told. -/
theorem Gives.readInto (h : l.Gives levels P D) {name : String} {draft draft' : δ}
    {cs left : List Char} (hdraft : D draft)
    (hread : l.readInto levels name draft cs = .ok (draft', left)) : D draft' := by
  induction h generalizing cs left with
  | done => trivial
  | field h habsent hrest ih =>
    obtain ⟨b?, draft⟩ := draft
    rw [Layout.readInto] at hread
    split at hread
    · split at hread
      · cases hread
      · obtain ⟨⟨u, behind⟩, -, hread⟩ := of_bind_eq_ok hread
        obtain ⟨⟨b, behind'⟩, hb, hread⟩ := of_bind_eq_ok hread
        cases hread
        refine ⟨?_, hdraft.2⟩
        rintro _ ⟨⟩
        exact h behind b _ hb
    · obtain ⟨⟨d, behind⟩, hd, hread⟩ := of_bind_eq_ok hread
      cases hread
      exact ⟨hdraft.1, ih hdraft.2 hd⟩

theorem Gives.finish (h : l.Gives levels P D) {draft : δ} {a : α} (hdraft : D draft)
    (hfinish : l.finish draft = .ok a) : P a := by
  induction h with
  | done => trivial
  | @field β γ δ name shape absent rest P Q D h habsent hrest ih =>
    obtain ⟨b?, draft⟩ := draft
    have hnext : ∀ b, P b → (rest.finish draft >>= fun c => .ok (b, c)) = .ok a →
        P a.1 ∧ Q a.2 := by
      intro b hb hfinish
      obtain ⟨c, hc, hfinish⟩ := of_bind_eq_ok hfinish
      cases hfinish
      exact ⟨hb, ih hdraft.2 hc⟩
    cases b? with
    | some b => exact hnext b (hdraft.1 b rfl) hfinish
    | none =>
      cases absent with
      | refused => cases hfinish
      | optional b => exact hnext b habsent hfinish
      | fallback b => exact hnext b habsent hfinish

theorem Gives.readItems (h : l.Gives levels P D) {words : String} {index : Nat}
    {cs left : List Char} {a : α} (hread : l.readItems levels words index cs = .ok (a, left)) :
    P a := by
  induction h generalizing index cs left with
  | done => trivial
  | @field β γ δ name shape absent rest P Q D h habsent hrest ih =>
    have hnext : ∀ b cs, P b → (rest.readItems levels words (index + 1) cs >>=
        fun tail => .ok ((b, tail.1), tail.2)) = .ok (a, left) → P a.1 ∧ Q a.2 := by
      intro b cs hb hread
      obtain ⟨⟨c, behind⟩, hc, hread⟩ := of_bind_eq_ok hread
      cases hread
      exact ⟨hb, ih hc⟩
    obtain ⟨⟨more, behind⟩, -, hread⟩ := of_bind_eq_ok hread
    cases more with
    | true =>
      obtain ⟨⟨b, behind'⟩, hb, hread⟩ := of_bind_eq_ok hread
      exact hnext b behind' (h behind b behind' hb) hread
    | false =>
      -- An array may end in front of a field that has a value to fall back on.
      cases absent with
      | refused => cases hread
      | optional b => cases hread
      | fallback b => exact hnext b behind habsent hread

end Layout

/-- A record is as its layout tells. -/
theorem Shape.gives_record {α δ : Type} {levels : Nat} {l : Layout α δ} {P : α → Prop}
    {D : δ → Prop} (h : l.Gives levels P D) (name : String) :
    (Shape.record name l).Gives (levels + 1) P := by
  intro cs a left hread
  unfold Shape.record at hread
  dsimp only at hread
  split at hread
  · obtain ⟨⟨draft, behind⟩, hdraft, hread⟩ := of_bind_eq_ok hread
    have hfull : D draft :=
      readFields_keeps (fun _ _ _ _ _ hs hfield => h.readInto hs hfield) h.blank hdraft
    exact h.finish hfull (of_placed_eq_ok hread).1
  · obtain ⟨⟨a', behind⟩, ha, hread⟩ := of_bind_eq_ok hread
    obtain ⟨⟨u, behind'⟩, -, hread⟩ := of_bind_eq_ok hread
    cases hread
    exact h.readItems ha
  · exact absurd hread readOther_ne_ok

end Harvest.Json
