/-
  Harvest.Proofs.Number.Order

  The order of floating-point numbers. A finite number is a whole number of units, the unit
  being the least positive number `2 ^ -1074`, and one finite number is below another
  exactly when it has fewer units (`lt_iff_units_lt`). What is known of the order of whole
  numbers thereby holds of finite floating-point numbers.
-/
import Harvest.Number.Binary

namespace Harvest.Number

open Float.Model Float.Model.UnpackedFloat

/-! ## The parts of a number -/

/-- The fraction bits of a number. -/
abbrev fractionBits (v : BitVec 64) : BitVec 52 := @unpackMantissa Format.binary64 v

/-- The exponent bits of a number. -/
abbrev exponentBits (v : BitVec 64) : BitVec 11 := @unpackExponent Format.binary64 v

/-- The sign of a number. -/
abbrev signOf (v : BitVec 64) : Sign := Sign.ofBitVec (@unpackSign Format.binary64 v)

/-- Whether a sign is the negative one. -/
def isMinus : Sign → Bool
  | .negative => true
  | .positive => false

theorem toNat_fractionBits (v : BitVec 64) :
    (fractionBits v).toNat = v.toNat % 0x10000000000000 := by
  simp [fractionBits, unpackMantissa, BitVec.extractLsb]

theorem toNat_exponentBits (v : BitVec 64) :
    (exponentBits v).toNat = v.toNat / 0x10000000000000 % 0x800 := by
  simp [exponentBits, unpackExponent, BitVec.extractLsb, Nat.shiftRight_eq_div_pow]

theorem isMinus_signOf (v : BitVec 64) :
    isMinus (signOf v) = (v.toNat / 0x8000000000000000 % 2 == 1) := by
  have htoNat : (@unpackSign Format.binary64 v).toNat
      = v.toNat / 0x8000000000000000 % 2 := by
    show (BitVec.extractLsb 63 63 v).toNat = _
    simp [BitVec.extractLsb, Nat.shiftRight_eq_div_pow]
  unfold signOf Sign.ofBitVec
  by_cases h0 : @unpackSign Format.binary64 v = 0#1
  · rw [if_pos h0]
    have hbit : v.toNat / 0x8000000000000000 % 2 = 0 := by rw [← htoNat, h0]; rfl
    rw [hbit]; rfl
  · rw [if_neg h0]
    have hne : v.toNat / 0x8000000000000000 % 2 ≠ 0 := by
      intro h
      apply h0
      apply BitVec.eq_of_toNat_eq
      rw [htoNat, h]; rfl
    have hbit : v.toNat / 0x8000000000000000 % 2 = 1 := by omega
    rw [hbit]; rfl

/-- A leading bit in front of the fraction bits. -/
theorem toNat_append_leadingBit (f : BitVec 52) :
    (1#1 ++ f).toNat = 0x10000000000000 + f.toNat := by
  rw [BitVec.toNat_append, ← Nat.shiftLeft_add_eq_or_of_lt f.isLt]
  rfl

/-- The mantissas and exponents that finite numbers other than zero have. -/
structure Canonical (m : Nat) (e : Int) : Prop where
  pos : 0 < m
  lt : m < 0x20000000000000
  least : -1074 ≤ e
  greatest : e ≤ 971
  /-- Only at the least exponent is the leading bit missing. -/
  leading : 0x10000000000000 ≤ m ∨ e = -1074

/-- The parts of a number, as arithmetic takes them and as its exact value. -/
inductive Parts (x : Float) : Prop where
  | notANumber (hu : x.toModel.unpack = .notANumber) (hb : Binary.ofFloat x = .notANumber)
  | infinite (s : Sign) (hu : x.toModel.unpack = .infinity s)
      (hb : Binary.ofFloat x = .infinite (isMinus s))
  | zero (s : Sign) (hu : x.toModel.unpack = .zero s)
      (hb : Binary.ofFloat x = .finite (isMinus s) 0 (-1074) false)
  | finite (s : Sign) (m : Nat) (e : Int) (lowest : Bool) (h : Canonical m e)
      (hu : x.toModel.unpack = .finite s m e h.pos)
      (hb : Binary.ofFloat x = .finite (isMinus s) m e lowest)

/-- A finite number is told by its sign, its mantissa and its exponent. -/
theorem finite_congr {s : Sign} {m n : Nat} {e f : Int} {hm : 0 < m} {hn : 0 < n} (hmn : m = n)
    (hef : e = f) : UnpackedFloat.finite s m e hm = .finite s n f hn := by
  subst hmn hef
  rfl

/-- Arithmetic and the exact value agree on the parts of every number. -/
theorem parts (x : Float) : Parts x := by
  have hbits : x.toBits.toNat = x.toModel.toBits.toBitVec.toNat := rfl
  generalize hv : x.toModel.toBits.toBitVec = v at hbits
  have hu : x.toModel.unpack = UnpackedFloat.unpack Format.binary64 v := by rw [← hv]; rfl
  have hb : Binary.ofFloat x = Binary.ofBits v.toNat := by rw [← hbits]; rfl
  simp only [Binary.ofBits, ← toNat_fractionBits, ← toNat_exponentBits, ← isMinus_signOf] at hb
  have hflt : (fractionBits v).toNat < 0x10000000000000 := (fractionBits v).isLt
  have helt : (exponentBits v).toNat < 0x800 := (exponentBits v).isLt
  have hbias : ((Format.binary64.exponentBias : Nat) : Int)
      + (Format.binary64.mantissaBitsWithoutImplicit : Nat) = 1075 := by decide
  have hall : exponentBits v = -1#11 ↔ (exponentBits v).toNat = 2047 := by
    rw [← BitVec.toNat_inj]; rfl
  have hnone : exponentBits v = 0#11 ↔ (exponentBits v).toNat = 0 := by
    rw [← BitVec.toNat_inj]; rfl
  have hzero : fractionBits v = 0#52 ↔ (fractionBits v).toNat = 0 := by
    rw [← BitVec.toNat_inj]; rfl
  unfold UnpackedFloat.unpack at hu
  rw [hbias] at hu
  by_cases he : exponentBits v = -1#11
  · -- All exponent bits: an infinite value, or no number.
    rw [if_pos he] at hu
    rw [if_pos (hall.mp he)] at hb
    by_cases hf : fractionBits v = 0#52
    · rw [if_pos hf] at hu
      rw [if_pos (hzero.mp hf)] at hb
      exact .infinite _ hu hb
    · rw [if_neg hf] at hu
      rw [if_neg (fun h => hf (hzero.mpr h))] at hb
      exact .notANumber hu hb
  · rw [if_neg he] at hu
    rw [if_neg (fun h => he (hall.mpr h))] at hb
    by_cases he0 : exponentBits v = 0#11
    · -- No exponent bit: there is no leading bit.
      have he0' := hnone.mp he0
      rw [if_pos he0] at hu
      rw [if_pos he0'] at hb
      by_cases hf : fractionBits v = 0#52
      · rw [dif_pos hf] at hu
        rw [hzero.mp hf] at hb
        exact .zero _ hu hb
      · rw [dif_neg hf] at hu
        have hpos : 0 < (fractionBits v).toNat := Nat.pos_of_ne_zero fun h => hf (hzero.mpr h)
        have hexp : ((exponentBits v).toNat : Int) - 1075 + 1 = -1074 := by omega
        exact .finite _ (fractionBits v).toNat (-1074) false
          ⟨hpos, by omega, by omega, by omega, .inr rfl⟩ (hu.trans (finite_congr rfl hexp)) hb
    · have he0' : (exponentBits v).toNat ≠ 0 := fun h => he0 (hnone.mpr h)
      have he' : (exponentBits v).toNat ≠ 2047 := fun h => he (hall.mpr h)
      rw [if_neg he0] at hu
      rw [if_neg he0'] at hb
      have hmantissa := toNat_append_leadingBit (fractionBits v)
      exact .finite _ (0x10000000000000 + (fractionBits v).toNat)
        (((exponentBits v).toNat : Int) - 1075) _
        ⟨by omega, by omega, by omega, by omega, .inl (by omega)⟩
        (hu.trans (finite_congr hmantissa rfl)) hb

/-! ## Units -/

/-- The number of units of a mantissa with an exponent. -/
def unitsOf (m : Nat) (e : Int) : Nat := m * power 2 (e + 1074).toNat

/-- The number of units of a finite value. -/
def Binary.units : Binary → Int
  | .finite negative m e _ => if negative then -(unitsOf m e : Int) else unitsOf m e
  | _ => 0

theorem unitsOf_pos {m : Nat} {e : Int} (h : Canonical m e) : 0 < unitsOf m e :=
  Nat.mul_pos h.pos (power_pos (by decide) _)

/-- A greater exponent outweighs every mantissa. -/
theorem unitsOf_lt_of_exponent_lt {m n : Nat} {e f : Int} (hm : Canonical m e)
    (hn : Canonical n f) (hef : e < f) : unitsOf m e < unitsOf n f := by
  obtain ⟨k, hk⟩ : ∃ k, (f + 1074).toNat = (e + 1074).toNat + 1 + k :=
    ⟨(f - e - 1).toNat, by have := hm.least; omega⟩
  have hlead : 0x10000000000000 ≤ n := by
    rcases hn.leading with h | h
    · exact h
    · have := hm.least
      omega
  have hpow : power 2 (f + 1074).toNat = power 2 (e + 1074).toNat * 2 * power 2 k := by
    rw [hk]
    show 2 ^ _ = 2 ^ _ * 2 * 2 ^ _
    rw [Nat.pow_add, Nat.pow_succ]
  have hpos : 0 < power 2 (e + 1074).toNat := power_pos (by decide) _
  have hkpos : 1 ≤ power 2 k := power_pos (by decide) _
  show m * power 2 (e + 1074).toNat < n * power 2 (f + 1074).toNat
  calc m * power 2 (e + 1074).toNat
      < 0x20000000000000 * power 2 (e + 1074).toNat := Nat.mul_lt_mul_of_pos_right hm.lt hpos
    _ = 0x10000000000000 * (power 2 (e + 1074).toNat * 2) := by omega
    _ ≤ n * (power 2 (e + 1074).toNat * 2) := Nat.mul_le_mul_right _ hlead
    _ ≤ n * (power 2 (e + 1074).toNat * 2) * power 2 k := Nat.le_mul_of_pos_right _ hkpos
    _ = n * power 2 (f + 1074).toNat := by rw [hpow, Nat.mul_assoc]

/-- Exponents are compared first and then mantissas. -/
theorem compare_then_eq {m n : Nat} {e f : Int} (hm : Canonical m e) (hn : Canonical n f) :
    (compare e f).then (compare m n) = compare (unitsOf m e) (unitsOf n f) := by
  rcases Int.lt_trichotomy e f with hef | hef | hef
  · have hc : compare e f = .lt := Int.compare_eq_lt.mpr hef
    rw [hc, Nat.compare_eq_lt.mpr (unitsOf_lt_of_exponent_lt hm hn hef)]
    rfl
  · subst hef
    have hpos : 0 < power 2 (e + 1074).toNat := power_pos (by decide) _
    have hc : compare e e = .eq := Int.compare_eq_eq.mpr rfl
    rw [hc]
    show compare m n = compare (m * _) (n * _)
    rcases Nat.lt_trichotomy m n with h | h | h
    · rw [Nat.compare_eq_lt.mpr h, Nat.compare_eq_lt.mpr (Nat.mul_lt_mul_of_pos_right h hpos)]
    · rw [h, Nat.compare_eq_eq.mpr rfl, Nat.compare_eq_eq.mpr rfl]
    · rw [Nat.compare_eq_gt.mpr h, Nat.compare_eq_gt.mpr (Nat.mul_lt_mul_of_pos_right h hpos)]
  · have hc : compare e f = .gt := Int.compare_eq_gt.mpr hef
    rw [hc, Nat.compare_eq_gt.mpr (unitsOf_lt_of_exponent_lt hn hm hef)]
    rfl

/-! ## The order -/

theorem lt_iff_compare (x y : Float) :
    x < y ↔ x.toModel.unpack.compare y.toModel.unpack = some .lt := by
  show Float.lt x y = true ↔ _
  unfold Float.lt
  rw [decide_eq_true_eq]
  exact beq_iff_eq

/-- The number of units of a mantissa with a sign and an exponent. -/
def signedUnits (s : Sign) (m : Nat) (e : Int) : Int :=
  if isMinus s then -(unitsOf m e : Int) else unitsOf m e

section

variable {m n : Nat} {e f : Int}

theorem compare_zero_finite (s t : Sign) (hn : Canonical n f) :
    (UnpackedFloat.zero s).compare (.finite t n f hn.pos) = some .lt ↔ 0 < signedUnits t n f := by
  have hpos := unitsOf_pos hn
  cases t with
  | positive =>
    show some Ordering.lt = some .lt ↔ (0 : Int) < unitsOf n f
    exact iff_of_true rfl (by omega)
  | negative =>
    show some Ordering.gt = some .lt ↔ (0 : Int) < -(unitsOf n f : Int)
    exact iff_of_false nofun (by omega)

theorem compare_finite_zero (s t : Sign) (hm : Canonical m e) :
    (UnpackedFloat.finite s m e hm.pos).compare (.zero t) = some .lt ↔ signedUnits s m e < 0 := by
  have hpos := unitsOf_pos hm
  cases s with
  | positive =>
    show some Ordering.gt = some .lt ↔ (unitsOf m e : Int) < 0
    exact iff_of_false nofun (by omega)
  | negative =>
    show some Ordering.lt = some .lt ↔ -(unitsOf m e : Int) < 0
    exact iff_of_true rfl (by omega)

theorem compare_finite_finite (s t : Sign) (hm : Canonical m e) (hn : Canonical n f) :
    (UnpackedFloat.finite s m e hm.pos).compare (.finite t n f hn.pos) = some .lt ↔
      signedUnits s m e < signedUnits t n f := by
  have hpos := unitsOf_pos hm
  have hpos' := unitsOf_pos hn
  cases s with
  | positive =>
    cases t with
    | positive =>
      show some ((compare e f).then (compare m n)) = some .lt ↔
        (unitsOf m e : Int) < unitsOf n f
      rw [compare_then_eq hm hn, Option.some.injEq, Nat.compare_eq_lt]
      omega
    | negative =>
      show some Ordering.gt = some .lt ↔ (unitsOf m e : Int) < -(unitsOf n f : Int)
      exact iff_of_false nofun (by omega)
  | negative =>
    cases t with
    | positive =>
      show some Ordering.lt = some .lt ↔ -(unitsOf m e : Int) < unitsOf n f
      exact iff_of_true rfl (by omega)
    | negative =>
      show some ((compare e f).then (compare m n)).swap = some .lt ↔
        -(unitsOf m e : Int) < -(unitsOf n f : Int)
      rw [compare_then_eq hm hn, Option.some.injEq, Ordering.swap_eq_lt, Nat.compare_eq_gt]
      omega

end

/-- What a finite number is: its sign, and its exact value in either form. -/
theorem parts_of_isFinite {x : Float} (hx : x.isFinite = true) :
    (∃ s, x.toModel.unpack = .zero s ∧ (Binary.ofFloat x).units = 0) ∨
    ∃ s m e, ∃ h : Canonical m e, x.toModel.unpack = .finite s m e h.pos ∧
      (Binary.ofFloat x).units = signedUnits s m e := by
  have hunpack : x.toModel.unpack.isFinite = true := hx
  cases parts x with
  | notANumber hu hb => rw [hu] at hunpack; cases hunpack
  | infinite s hu hb => rw [hu] at hunpack; cases hunpack
  | zero s hu hb =>
    refine .inl ⟨s, hu, ?_⟩
    rw [hb]
    simp [Binary.units, unitsOf]
  | finite s m e lowest h hu hb => exact .inr ⟨s, m, e, h, hu, by rw [hb]; rfl⟩

/-- A finite number is below another exactly when it has fewer units. -/
theorem lt_iff_units_lt {x y : Float} (hx : x.isFinite = true) (hy : y.isFinite = true) :
    x < y ↔ (Binary.ofFloat x).units < (Binary.ofFloat y).units := by
  rw [lt_iff_compare]
  rcases parts_of_isFinite hx with ⟨s, hu, hxu⟩ | ⟨s, m, e, hm, hu, hxu⟩
  · rcases parts_of_isFinite hy with ⟨t, hv, hyu⟩ | ⟨t, n, f, hn, hv, hyu⟩
    · rw [hu, hv, hxu, hyu]
      exact iff_of_false nofun (Int.lt_irrefl 0)
    · rw [hu, hv, hxu, hyu]
      exact compare_zero_finite s t hn
  · rcases parts_of_isFinite hy with ⟨t, hv, hyu⟩ | ⟨t, n, f, hn, hv, hyu⟩
    · rw [hu, hv, hxu, hyu]
      exact compare_finite_zero s t hm
    · rw [hu, hv, hxu, hyu]
      exact compare_finite_finite s t hm hn

theorem not_lt_self {x : Float} (hx : x.isFinite = true) : ¬ x < x := by
  rw [lt_iff_units_lt hx hx]
  omega

theorem lt_of_lt_of_lt {x y z : Float} (hx : x.isFinite = true) (hy : y.isFinite = true)
    (hz : z.isFinite = true) (hxy : x < y) (hyz : y < z) : x < z := by
  rw [lt_iff_units_lt hx hy] at hxy
  rw [lt_iff_units_lt hy hz] at hyz
  rw [lt_iff_units_lt hx hz]
  omega

end Harvest.Number
