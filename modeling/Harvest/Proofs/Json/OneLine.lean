/-
  Harvest.Proofs.Json.OneLine

  The text of a JSON value is on one line: no character of it ends a line, whatever strings the
  value holds (`newline_notMem_bytes`). So a value and the octet that ends its line are one line
  of a file.
-/
import Harvest.Proofs.Json.RoundTrip
import Harvest.Proofs.Text.Utf8

namespace Harvest

/-! ## Numbers -/

namespace Number

theorem isDigit_of_mem_toDigits {n : Nat} {c : Char} (h : c ∈ Nat.toDigits 10 n) :
    c.isDigit = true := by
  have hall : ∀ d : Fin 10, (Nat.digitChar d).isDigit = true := by decide
  induction n using Nat.strongRecOn with
  | ind n ih =>
    by_cases hsmall : n < 10
    · rw [Nat.toDigits_of_lt_base hsmall, List.mem_singleton] at h
      rw [h]
      exact hall ⟨n, hsmall⟩
    · rw [Nat.toDigits_of_base_le (by decide) (Nat.le_of_not_lt hsmall), List.mem_append,
        List.mem_singleton] at h
      rcases h with h | h
      · exact ih (n / 10) (by omega) h
      · rw [h]
        exact hall ⟨n % 10, Nat.mod_lt n (by decide)⟩

/-- Whether a character may stand in a number or a word. -/
def isBare (c : Char) : Bool :=
  c.isDigit || ['+', '-', '.', 'E', 'a', 'e', 'f', 'l', 'n', 'r', 's', 't', 'u'].contains c

theorem isBare_of_isDigit {c : Char} (h : c.isDigit = true) : isBare c = true := by
  unfold isBare
  rw [h, Bool.true_or]

theorem isBare_toDigits (n : Nat) : (Nat.toDigits 10 n).all isBare = true :=
  List.all_eq_true.mpr fun _ hc => isBare_of_isDigit (isDigit_of_mem_toDigits hc)

theorem isBare_integerChars (n : Int) : (integerChars n).all isBare = true := by
  unfold integerChars
  split
  · rw [List.all_cons, isBare_toDigits]
    rfl
  · exact isBare_toDigits _

theorem isBare_text (style : Harvest.Number.Style) (d : Harvest.Number.Decimal) :
    (d.text style).all isBare = true := by
  have hdigits := isBare_toDigits d.digits
  have htake : ∀ k, ((Nat.toDigits 10 d.digits).take k).all isBare = true := by
    intro k
    rw [List.all_eq_true] at hdigits ⊢
    exact fun c hc => hdigits c (List.mem_of_mem_take hc)
  have hdrop : ∀ k, ((Nat.toDigits 10 d.digits).drop k).all isBare = true := by
    intro k
    rw [List.all_eq_true] at hdigits ⊢
    exact fun c hc => hdigits c (List.mem_of_mem_drop hc)
  have hzero : isBare '0' = true := rfl
  have hpoint : isBare '.' = true := rfl
  unfold Harvest.Number.Decimal.text
  dsimp only
  split
  · split
    · simp [hdigits, hzero, hpoint]
    · split
      · simp [hdigits, hzero, hpoint]
      · simp [htake, hdrop, hpoint]
  · have hexponent := isBare_toDigits
      (d.exponent + (Nat.toDigits 10 d.digits).length - 1).natAbs
    have hfraction : (if ((Nat.toDigits 10 d.digits).drop 1).isEmpty = true then []
        else '.' :: (Nat.toDigits 10 d.digits).drop 1).all isBare = true := by
      split
      · rfl
      · rw [List.all_cons, hdrop, hpoint]
        rfl
    have hsign : (if d.exponent + (Nat.toDigits 10 d.digits).length - 1 < 0 then ['-']
        else if style.plus = true then ['+'] else []).all isBare = true := by
      split
      · rfl
      · split <;> rfl
    have he : isBare 'e' = true := rfl
    rw [List.all_append, List.all_append, List.all_append, List.all_cons, htake, hfraction, he,
      hsign, hexponent]
    rfl

/-- A number is written in digits, with signs, a point and an exponent, or as a word. -/
theorem isBare_chars (n : Number) : n.chars.all isBare = true := by
  cases n with
  | integer n => exact isBare_integerChars n
  | real x =>
    show ((Harvest.Number.floatText? Number.style x).getD ['n', 'u', 'l', 'l']).all isBare = true
    unfold Harvest.Number.floatText?
    split
    · have hzero : ['0', '.', '0'].all isBare = true := rfl
      have hminus : isBare '-' = true := rfl
      rw [Option.getD_some]
      split <;> split <;> simp [hminus, hzero, isBare_text]
    · rfl

theorem newline_notMem_chars (n : Number) : '\n' ∉ n.chars := by
  intro h
  have hbare := List.all_eq_true.mp (isBare_chars n) '\n' h
  cases hbare

end Number

namespace Json

/-! ## Strings -/

theorem newline_notMem_escapeChar (c : Char) : '\n' ∉ escapeChar c := by
  have hhex : ∀ d, d < 16 → Nat.digitChar d ≠ '\n' := by
    intro d hd
    have hall : ∀ d : Fin 16, Nat.digitChar d ≠ '\n' := by decide
    exact hall ⟨d, hd⟩
  unfold escapeChar
  split
  · decide
  · decide
  · decide
  · decide
  · decide
  · decide
  · decide
  · next hline _ _ =>
    split
    · next hcontrol =>
      have hhigh := hhex (c.toNat / 16) (by omega)
      have hlow := hhex (c.toNat % 16) (by omega)
      simp [Ne.symm hhigh, Ne.symm hlow]
    · rw [List.mem_singleton]
      exact fun h => hline h.symm

theorem newline_notMem_stringChars (s : String) : '\n' ∉ stringChars s := by
  unfold stringChars
  intro h
  simp only [List.mem_cons, List.mem_append, List.mem_flatMap, List.not_mem_nil] at h
  rcases h with (h | ⟨c, -, h⟩) | h | h
  · cases h
  · exact newline_notMem_escapeChar c h
  · cases h
  · exact h

/-! ## Values -/

theorem newline_notMem_itemChars {items : List Json} (h : ∀ v ∈ items, '\n' ∉ v.chars) :
    '\n' ∉ itemChars items := by
  induction items with
  | nil => exact List.not_mem_nil
  | cons v items ih =>
    have hv := h v List.mem_cons_self
    have hrest := ih fun w hw => h w (List.mem_cons_of_mem v hw)
    have hmore : '\n' ∉ moreItems items := by
      cases items with
      | nil => exact List.not_mem_nil
      | cons w items => simp [moreItems, hrest]
    rw [itemChars_cons, List.mem_append]
    exact fun h => h.elim hv hmore

theorem newline_notMem_fieldChars {fields : Fields} (h : ∀ e ∈ fields, '\n' ∉ e.2.chars) :
    '\n' ∉ fieldChars fields := by
  induction fields with
  | nil => exact List.not_mem_nil
  | cons e fields ih =>
    obtain ⟨name, v⟩ := e
    have hname := newline_notMem_stringChars name
    have hv := h (name, v) List.mem_cons_self
    have hrest := ih fun f hf => h f (List.mem_cons_of_mem _ hf)
    have hmore : '\n' ∉ moreFields fields := by
      cases fields with
      | nil => exact List.not_mem_nil
      | cons f fields => simp [moreFields, hrest]
    rw [fieldChars_cons]
    simp [hname, hv, hmore]

theorem newline_notMem_chars (v : Json) : '\n' ∉ v.chars := by
  induction v using parts_induction with
  | null => decide
  | bool b => cases b <;> decide
  | number n => exact Number.newline_notMem_chars n
  | string s => exact newline_notMem_stringChars s
  | array items ih =>
    have hitems := newline_notMem_itemChars ih
    show '\n' ∉ '[' :: itemChars items ++ [']']
    simp [hitems]
  | object fields ih =>
    have hfields := newline_notMem_fieldChars ih
    show '\n' ∉ '\x7b' :: fieldChars fields ++ ['\x7d']
    simp [hfields]

/-- No octet of the text of a value ends a line. -/
theorem newline_notMem_bytes (v : Json) : newline ∉ v.bytes :=
  fun h => newline_notMem_chars v (Utf8.newline_mem_encode h)

end Json
end Harvest
