/-
  Harvest.Proofs.Number.Rounding

  Rounding a product. Multiplying a finite number by a whole one gives exactly the product of its
  units, rounded to the nearest number that has few enough digits, a tie going to the even one
  (`nearest`). Rounding keeps the order (`nearest_mono`), and so does taking the nearest whole
  number after it: the milliseconds of a later time are never fewer
  (`roundToInt64_thousand_mono`).
-/
import Harvest.Proofs.Number.Order

namespace Harvest.Number

open Float.Model Float.Model.UnpackedFloat

/-! ## Dropping digits -/

theorem power_add (base i j : Nat) : power base (i + j) = power base i * power base j :=
  Nat.pow_add base i j

/-- The whole number nearest to `n / 2 ^ k`, an even one on a tie. -/
def toEven (n k : Nat) : Nat :=
  let unit := power 2 k
  let rest := 2 * (n % unit)
  if rest < unit then n / unit
  else if rest = unit then n / unit + n / unit % 2
  else n / unit + 1

theorem toEven_bounds (n k : Nat) :
    n / power 2 k ≤ toEven n k ∧ toEven n k ≤ n / power 2 k + 1 := by
  unfold toEven
  dsimp only
  split
  · omega
  · split <;> omega

/-- Of more, no less is left. -/
theorem toEven_mono {m n : Nat} (h : m ≤ n) (k : Nat) : toEven m k ≤ toEven n k := by
  have hquotient : m / power 2 k ≤ n / power 2 k := Nat.div_le_div_right h
  rcases Nat.lt_or_eq_of_le hquotient with hless | hsame
  · have hm := (toEven_bounds m k).2
    have hn := (toEven_bounds n k).1
    omega
  · -- With the same digits left, the digits that are dropped decide.
    have hrest : m % power 2 k ≤ n % power 2 k := by
      have hdm := Nat.div_add_mod m (power 2 k)
      have hdn := Nat.div_add_mod n (power 2 k)
      rw [hsame] at hdm
      omega
    simp only [toEven, hsame]
    grind

/-- A multiple of a power of two loses no more than the power. -/
theorem toEven_mul_power (n j k : Nat) : toEven (n * power 2 j) (j + k) = toEven n k := by
  have hpower : power 2 (j + k) = power 2 k * power 2 j := by
    rw [power_add, Nat.mul_comm]
  have hpos : 0 < power 2 j := power_pos (by decide) j
  have hquotient : n * power 2 j / power 2 (j + k) = n / power 2 k := by
    rw [hpower, Nat.mul_div_mul_right _ _ hpos]
  have hrest : 2 * (n * power 2 j % power 2 (j + k)) = 2 * (n % power 2 k) * power 2 j := by
    rw [hpower, Nat.mul_mod_mul_right, Nat.mul_assoc]
  unfold toEven
  dsimp only
  rw [hquotient, hrest, hpower]
  simp only [Nat.mul_lt_mul_right hpos, Nat.mul_left_inj (Nat.ne_of_gt hpos)]

theorem toEven_zero (n : Nat) : toEven n 0 = n := by
  unfold toEven
  simp [power, Nat.mod_one]

theorem toEven_le_of_lt {n k digits : Nat} (h : n < digits * power 2 k) :
    toEven n k ≤ digits := by
  have hquotient : n / power 2 k < digits := by
    rw [Nat.div_lt_iff_lt_mul (power_pos (by decide) k)]
    exact h
  have hupper := (toEven_bounds n k).2
  omega

theorem le_toEven_of_le {n k digits : Nat} (h : digits * power 2 k ≤ n) :
    digits ≤ toEven n k := by
  have hquotient : digits ≤ n / power 2 k := by
    rw [Nat.le_div_iff_mul_le (power_pos (by decide) k)]
    exact h
  exact Nat.le_trans hquotient (toEven_bounds n k).1

/-! ## Shifting a mantissa -/

/-- What shifting keeps of a mantissa: the digits that are left, whether those that are dropped
    make up half a unit, and whether there is more to them than half a unit or none. -/
theorem shiftRight_exact (m n : Nat) :
    (⟨m, false, false⟩ : ExtendedMantissa) >>> n =
      ⟨m / power 2 n, decide (power 2 n ≤ 2 * (m % power 2 n)),
        decide (2 * (m % power 2 n) % power 2 n ≠ 0)⟩ := by
  induction n with
  | zero =>
    show (⟨m, false, false⟩ : ExtendedMantissa) = _
    simp [power, Nat.mod_one]
  | succ n ih =>
    show ((⟨m, false, false⟩ : ExtendedMantissa) >>> n).shiftRightOne = _
    rw [ih]
    have hpower : power 2 (n + 1) = power 2 n * 2 := rfl
    have hpos : 0 < power 2 n := power_pos (by decide) n
    have hrest : m % power 2 n < power 2 n := Nat.mod_lt m hpos
    have hdigits : m / (power 2 n * 2) = m / power 2 n / 2 := (Nat.div_div_eq_div_mul ..).symm
    have hdropped : m % (power 2 n * 2) =
        m % power 2 n + power 2 n * (m / power 2 n % 2) := Nat.mod_mul
    rw [hpower, hdigits, hdropped]
    generalize m / power 2 n = q
    generalize m % power 2 n = r at hrest
    generalize power 2 n = unit at hpos hrest
    have hmod : 2 * (r + unit * (q % 2)) % (unit * 2) = 2 * r := by
      rw [Nat.mul_comm unit 2, Nat.mul_mod_mul_left, Nat.add_mul_mod_self_left,
        Nat.mod_eq_of_lt hrest]
    -- The digit that is dropped last is the half,
    have hhalf : (q % 2 != 0) = decide (unit * 2 ≤ 2 * (r + unit * (q % 2))) := by
      rw [Bool.eq_iff_iff, bne_iff_ne, decide_eq_true_eq]
      rcases Nat.mod_two_eq_zero_or_one q with hq | hq
      · rw [hq]
        omega
      · rw [hq]
        omega
    -- and there is more if any digit was dropped before it.
    have hmore : (decide (unit ≤ 2 * r) || decide (2 * r % unit ≠ 0)) = decide (2 * r ≠ 0) := by
      rw [Bool.eq_iff_iff, Bool.or_eq_true, decide_eq_true_eq, decide_eq_true_eq,
        decide_eq_true_eq]
      rcases Nat.lt_or_ge (2 * r) unit with hless | hge
      · rw [Nat.mod_eq_of_lt hless]
        omega
      · omega
    unfold ExtendedMantissa.shiftRightOne
    dsimp only
    rw [hmod, hhalf, hmore]

/-- The mantissa after a shift, rounded, is the nearest one. -/
theorem roundedMantissa_shiftRight (m n : Nat) :
    ((⟨m, false, false⟩ : ExtendedMantissa) >>> n).roundedMantissa = toEven m n := by
  rw [shiftRight_exact]
  have hpos : 0 < power 2 n := power_pos (by decide) n
  have hrest : m % power 2 n < power 2 n := Nat.mod_lt m hpos
  unfold toEven
  dsimp only
  generalize m / power 2 n = q
  generalize m % power 2 n = r at hrest
  generalize power 2 n = unit at hpos hrest
  unfold ExtendedMantissa.roundedMantissa
  rcases Nat.lt_trichotomy (2 * r) unit with hless | hsame | hmore
  · rw [if_pos hless, decide_eq_false (Nat.not_le.mpr hless)]
    cases decide (2 * r % unit ≠ 0) <;> rfl
  · have hexact : ¬ 2 * r % unit ≠ 0 := by
      rw [hsame, Nat.mod_self]
      simp
    rw [if_neg (by omega), if_pos hsame, decide_eq_true (by omega : unit ≤ 2 * r),
      decide_eq_false hexact]
    rfl
  · have hsticky : 2 * r % unit ≠ 0 := by
      rw [Nat.mod_eq_sub_mod (by omega), Nat.mod_eq_of_lt (by omega)]
      omega
    rw [if_neg (by omega), if_neg (by omega), decide_eq_true (by omega : unit ≤ 2 * r),
      decide_eq_true hsticky]
    rfl

/-! ## Rounding to a number of digits -/

/-- The mantissas and exponents to which a number is rounded. If the exponent is too great, the
    number overflows. -/
structure Rounded (m : Nat) (e : Int) : Prop where
  pos : 0 < m
  lt : m < 0x20000000000000
  least : -1074 ≤ e
  /-- Only at the least exponent is the leading bit missing. -/
  leading : 0x10000000000000 ≤ m ∨ e = -1074

theorem Rounded.canonical {m : Nat} {e : Int} (h : Rounded m e) (he : e ≤ 971) : Canonical m e :=
  ⟨h.pos, h.lt, h.least, he, h.leading⟩

/-- The exponent to which a number is brought. -/
theorem targetExponent_eq (m : Nat) (e : Int) :
    Format.binary64.targetExponent (totalExponent m e) = max (m.log2 + e - 52) (-1074) := by
  have hbits : ((Format.binary64.mantissaBits : Nat) : Int) = 53 := by decide
  have hleast : Format.binary64.minExponent = -1074 := by decide
  unfold Format.targetExponent totalExponent
  rw [hbits, hleast]
  omega

/-- A number with as many digits as there may be stays as it is when it is brought to an exponent
    again, but that one digit too many is shifted out. -/
theorem shiftToTargetExponent_rounded {q : Nat} {e : Int} (hpos : 0 < q)
    (hle : q ≤ 0x20000000000000) (hleast : -1074 ≤ e)
    (hleading : 0x10000000000000 ≤ q ∨ e = -1074) :
    ∃ m f, Rounded m f ∧ unitsOf m f = unitsOf q e ∧
      (shiftToTargetExponent Format.binary64 q e .exact).1.mantissa = m ∧
      (shiftToTargetExponent Format.binary64 q e .exact).2 = f := by
  unfold shiftToTargetExponent shiftToExponent
  dsimp only
  rw [targetExponent_eq]
  rcases Nat.lt_or_eq_of_le hle with hlt | rfl
  · have hlog : q.log2 < 53 := (Nat.log2_lt (Nat.ne_of_gt hpos)).mpr hlt
    have hshift : (max ((q.log2 : Int) + e - 52) (-1074) - e).toNat = 0 := by omega
    rw [hshift]
    refine ⟨q, e, ⟨hpos, hlt, hleast, hleading⟩, rfl, rfl, by omega⟩
  · have hlog : Nat.log2 0x20000000000000 = 53 := by decide
    rw [hlog]
    have hshift : (max (((53 : Nat) : Int) + e - 52) (-1074) - e).toNat = 1 := by omega
    rw [hshift]
    refine ⟨0x10000000000000, e + 1, ⟨by decide, by decide, by omega, .inl (by decide)⟩, ?_, rfl,
      by omega⟩
    have hexponent : (e + 1 + 1074).toNat = (e + 1074).toNat + 1 := by omega
    unfold unitsOf
    rw [hexponent]
    show 0x10000000000000 * (power 2 (e + 1074).toNat * 2) = _
    omega

/-- Rounding brings a number to an exponent, and drops the digits that it has too many. -/
theorem roundWithAccuracy_eq (s : Sign) {p q k : Nat} {e : Int}
    (htarget : max ((p.log2 : Int) + e - 52) (-1074) = (k : Int) - 1074)
    (hexponent : e ≤ (k : Int) - 1074) (hq : toEven p ((k : Int) - 1074 - e).toNat = q)
    (hpos : 0 < q) (hle : q ≤ 0x20000000000000) (hleading : 0x10000000000000 ≤ q ∨ k = 0) :
    ∃ m f, ∃ h : Rounded m f, unitsOf m f = q * power 2 k ∧
      roundWithAccuracy Format.binary64 s p e .exact = .finite s m f h.pos := by
  obtain ⟨m, f, hrounded, hunits, hmantissa, hfinal⟩ :=
    shiftToTargetExponent_rounded (e := (k : Int) - 1074) hpos hle (by omega)
      (hleading.imp_right fun h => by omega)
  refine ⟨m, f, hrounded, ?_, ?_⟩
  · rw [hunits]
    unfold unitsOf
    have hk : ((k : Int) - 1074 + 1074).toNat = k := by omega
    rw [hk]
  · have hfirst : (shiftToTargetExponent Format.binary64 p e .exact).1.roundedMantissa = q ∧
        (shiftToTargetExponent Format.binary64 p e .exact).2 = (k : Int) - 1074 := by
      unfold shiftToTargetExponent shiftToExponent
      dsimp only
      rw [targetExponent_eq, htarget]
      refine ⟨?_, by omega⟩
      rw [← hq]
      exact roundedMantissa_shiftRight p _
    unfold roundWithAccuracy
    dsimp only
    rw [hfirst.1, hfirst.2, hmantissa, hfinal]
    exact dif_neg (Nat.ne_of_gt hrounded.pos)

/-! ## Packing -/

theorem unpackSign_packComponents (s : Sign) (ex : BitVec 11) (ma : BitVec 52) :
    unpackSign (packComponents Format.binary64 s ex ma) = s.toBitVec := by
  apply BitVec.eq_of_getLsbD_eq
  intro i hi
  obtain rfl : i = 0 := by omega
  show ((s.toBitVec ++ ex ++ ma).extractLsb 63 63).getLsbD 0 = _
  rw [BitVec.getLsbD_extractLsb, BitVec.getLsbD_append, BitVec.getLsbD_append]
  simp

theorem ofBitVec_toBitVec (s : Sign) : Sign.ofBitVec s.toBitVec = s := by
  cases s <;> rfl

/-- The number by which an exponent is raised when it is packed. -/
theorem exponentBias_eq : ((Format.binary64.exponentBias : Nat) : Int) +
    (Format.binary64.mantissaBitsWithoutImplicit : Nat) = 1075 := by decide

/-- At the least exponent, the leading bit is missing. -/
theorem unpack_of_least {v : BitVec 64} (hexponent : exponentBits v = 0#11)
    (hpos : 0 < (fractionBits v).toNat) :
    UnpackedFloat.unpack Format.binary64 v =
      .finite (signOf v) (fractionBits v).toNat (-1074) hpos := by
  have hsome : ¬ fractionBits v = 0#52 := by
    intro hzero
    rw [hzero] at hpos
    cases hpos
  have hfinite : ¬ exponentBits v = -1#11 := by
    rw [hexponent]
    decide
  unfold UnpackedFloat.unpack
  dsimp only
  rw [if_neg hfinite, if_pos hexponent, dif_neg hsome]
  refine finite_congr rfl ?_
  show ((exponentBits v).toNat : Int) - _ + 1 = _
  rw [exponentBias_eq, hexponent]
  rfl

/-- At the exponents between the least one and that of infinity, it is put back. -/
theorem unpack_of_between {v : BitVec 64} {biased : Nat}
    (hexponent : (exponentBits v).toNat = biased) (hsome : 0 < biased) (hfits : biased < 2047) :
    UnpackedFloat.unpack Format.binary64 v = .finite (signOf v)
      (0x10000000000000 + (fractionBits v).toNat) ((biased : Int) - 1075) (by omega) := by
  have hfinite : ¬ exponentBits v = -1#11 := by
    intro hall
    rw [hall] at hexponent
    have hexponent : 2047 = biased := hexponent
    omega
  have hnormal : ¬ exponentBits v = 0#11 := by
    intro hnone
    rw [hnone] at hexponent
    have hexponent : 0 = biased := hexponent
    omega
  unfold UnpackedFloat.unpack
  dsimp only
  rw [if_neg hfinite, if_neg hnormal]
  refine finite_congr (toNat_append_leadingBit _) ?_
  rw [hexponent, exponentBias_eq]

/-- All exponent bits and no fraction bits make an infinite number. -/
theorem unpack_of_greatest {v : BitVec 64} (hexponent : exponentBits v = -1#11)
    (hfraction : fractionBits v = 0#52) :
    UnpackedFloat.unpack Format.binary64 v = .infinity (signOf v) := by
  unfold UnpackedFloat.unpack
  dsimp only
  rw [if_pos hexponent, if_pos hfraction]

theorem signOf_packComponents (s : Sign) (ex : BitVec 11) (ma : BitVec 52) :
    signOf (packComponents Format.binary64 s ex ma) = s := by
  unfold signOf
  rw [unpackSign_packComponents, ofBitVec_toBitVec]

theorem toNat_fractionBits_packComponents (s : Sign) (ex : BitVec 11) (m : Nat) :
    (fractionBits (packComponents Format.binary64 s ex (BitVec.ofNat 52 m))).toNat =
      m % 0x10000000000000 := by
  unfold fractionBits
  rw [unpackMantissa_packComponents, BitVec.toNat_ofNat]

/-- The exponent bits of an exponent, without a bound to them. -/
def biasedExponent (e : Int) : Nat := (e + 1075).toNat

/-- A number is packed as an infinite one if its exponent has too many bits, and otherwise
    without its leading bit, if it has one. -/
theorem pack_finite (s : Sign) {m : Nat} (e : Int) (hpos : 0 < m) :
    UnpackedFloat.pack Format.binary64 (.finite s m e hpos) =
      if 2048 ≤ biasedExponent e + 1 then packedInfinity Format.binary64 s
      else if m.log2 + 1 = 53 then
        packComponents Format.binary64 s (BitVec.ofNat 11 (biasedExponent e)) (BitVec.ofNat 52 m)
      else packComponents Format.binary64 s 0#11 (BitVec.ofNat 52 m) := by
  have hbiased : (e + Format.binary64.exponentBias +
      Format.binary64.mantissaBitsWithoutImplicit).toNat = biasedExponent e := by
    unfold biasedExponent
    rw [Int.add_assoc, exponentBias_eq]
  rw [← hbiased]
  rfl

/-- A number that does not overflow is packed without loss. -/
theorem unpack_pack_canonical (s : Sign) {m : Nat} {e : Int} (h : Canonical m e) :
    UnpackedFloat.unpack Format.binary64
      (UnpackedFloat.pack Format.binary64 (.finite s m e h.pos)) = .finite s m e h.pos := by
  have hleast := h.least
  have hgreatest := h.greatest
  have hpos : m ≠ 0 := Nat.ne_of_gt h.pos
  have hbiased : (biasedExponent e : Int) = e + 1075 := by
    unfold biasedExponent
    omega
  rw [pack_finite, if_neg (by omega)]
  rcases Nat.lt_or_ge m 0x10000000000000 with hsmall | hlead
  · have he : e = -1074 := h.leading.resolve_left (by omega)
    have hlog : m.log2 < 52 := (Nat.log2_lt hpos).mpr hsmall
    have hfraction := toNat_fractionBits_packComponents s 0#11 m
    rw [Nat.mod_eq_of_lt hsmall] at hfraction
    have hunpack := unpack_of_least (unpackExponent_packComponents ..) (hfraction ▸ h.pos)
    rw [signOf_packComponents] at hunpack
    rw [if_neg (by omega)]
    exact hunpack.trans (finite_congr hfraction he.symm)
  · have hlt := h.lt
    have hlog : m.log2 = 52 := (Nat.log2_eq_iff hpos).mpr ⟨hlead, hlt⟩
    have hfraction := toNat_fractionBits_packComponents s (BitVec.ofNat 11 (biasedExponent e)) m
    have hexponent : (exponentBits (packComponents Format.binary64 s
        (BitVec.ofNat 11 (biasedExponent e)) (BitVec.ofNat 52 m))).toNat = biasedExponent e := by
      unfold exponentBits
      rw [unpackExponent_packComponents, BitVec.toNat_ofNat]
      exact Nat.mod_eq_of_lt (by omega)
    have hunpack := unpack_of_between hexponent (by omega) (by omega)
    rw [signOf_packComponents] at hunpack
    rw [if_pos (by omega)]
    exact hunpack.trans (finite_congr (by omega) (by omega))

/-- A number that overflows is packed as an infinite one. -/
theorem unpack_pack_overflow (s : Sign) {m : Nat} {e : Int} (hpos : 0 < m) (h : 971 < e) :
    UnpackedFloat.unpack Format.binary64
      (UnpackedFloat.pack Format.binary64 (.finite s m e hpos)) = .infinity s := by
  have hlarge : 2048 ≤ biasedExponent e + 1 := by
    unfold biasedExponent
    omega
  have hexponent : exponentBits (packedInfinity Format.binary64 s) = -1#11 :=
    unpackExponent_packComponents
  have hfraction : fractionBits (packedInfinity Format.binary64 s) = 0#52 :=
    unpackMantissa_packComponents
  have hsign : signOf (packedInfinity Format.binary64 s) = s := signOf_packComponents s _ _
  rw [pack_finite, if_pos hlarge, unpack_of_greatest hexponent hfraction, hsign]

/-! ## The nearest number -/

/-- How many digits of a number of units are too many. -/
def surplus (n : Nat) : Nat := n.log2 - 52

/-- The number nearest to a number of units that has few enough digits, the one with an even last
    digit on a tie. -/
def nearest (n : Nat) : Nat := toEven n (surplus n) * power 2 (surplus n)

theorem lt_surplus (n : Nat) : n < 0x20000000000000 * power 2 (surplus n) := by
  have hless : n < 2 ^ (n.log2 + 1) := Nat.lt_log2_self
  have hdigits : 2 ^ (n.log2 + 1) ≤ 2 ^ (53 + surplus n) := by
    apply Nat.pow_le_pow_right (by decide)
    unfold surplus
    omega
  rw [Nat.pow_add 2 53] at hdigits
  exact Nat.lt_of_lt_of_le hless hdigits

theorem surplus_le (n : Nat) : surplus n = 0 ∨ 0x10000000000000 * power 2 (surplus n) ≤ n := by
  rcases Nat.lt_or_ge n.log2 53 with hfew | hmany
  · left
    unfold surplus
    omega
  · right
    have hpos : n ≠ 0 := by
      rintro rfl
      cases hmany
    have hdigits : 52 + surplus n = n.log2 := by
      unfold surplus
      omega
    have hle : 2 ^ n.log2 ≤ n := Nat.log2_self_le hpos
    rw [← hdigits, Nat.pow_add] at hle
    exact hle

/-- A number keeps no more digits than there may be, -/
theorem toEven_surplus_le (n : Nat) : toEven n (surplus n) ≤ 0x20000000000000 :=
  toEven_le_of_lt (lt_surplus n)

/-- and as many, unless it has fewer. -/
theorem le_toEven_surplus (n : Nat) :
    0x10000000000000 ≤ toEven n (surplus n) ∨ surplus n = 0 := by
  rcases surplus_le n with hfew | hmany
  · exact .inr hfew
  · exact .inl (le_toEven_of_le hmany)

theorem surplus_mono {m n : Nat} (h : m ≤ n) : surplus m ≤ surplus n := by
  rcases Nat.eq_zero_or_pos m with rfl | hpos
  · exact Nat.zero_le _
  · have hlog : m.log2 ≤ n.log2 := by
      rw [Nat.le_log2 (by omega)]
      exact Nat.le_trans (Nat.log2_self_le (Nat.ne_of_gt hpos)) h
    unfold surplus
    omega

/-- The nearest number of a greater one is no smaller. -/
theorem nearest_mono {m n : Nat} (h : m ≤ n) : nearest m ≤ nearest n := by
  rcases Nat.lt_or_eq_of_le (surplus_mono h) with hless | hsame
  · -- A power of two with as many digits as there may be lies between them.
    obtain ⟨j, hj⟩ : ∃ j, surplus n = surplus m + 1 + j := ⟨surplus n - surplus m - 1, by omega⟩
    have hpower : power 2 (surplus n) = power 2 (surplus m) * 2 * power 2 j := by
      rw [hj, power_add, power_add]
      rfl
    have hpos : 1 ≤ power 2 j := power_pos (by decide) j
    have hlead : 0x10000000000000 ≤ toEven n (surplus n) :=
      (le_toEven_surplus n).resolve_right (by omega)
    calc nearest m
        ≤ 0x20000000000000 * power 2 (surplus m) :=
          Nat.mul_le_mul_right _ (toEven_surplus_le m)
      _ = 0x10000000000000 * (power 2 (surplus m) * 2) := by omega
      _ ≤ 0x10000000000000 * (power 2 (surplus m) * 2) * power 2 j :=
          Nat.le_mul_of_pos_right _ hpos
      _ = 0x10000000000000 * power 2 (surplus n) := by rw [hpower, Nat.mul_assoc]
      _ ≤ nearest n := Nat.mul_le_mul_right _ hlead
  · unfold nearest
    rw [hsame]
    exact Nat.mul_le_mul_right _ (toEven_mono h _)

/-! ## The nearest whole number -/

/-- The whole number nearest to a number of units, a half going up. -/
def wholeOf (n : Nat) : Nat := (2 * n + power 2 1074) / (2 * power 2 1074)

theorem wholeOf_mono {m n : Nat} (h : m ≤ n) : wholeOf m ≤ wholeOf n := by
  apply Nat.div_le_div_right
  omega

/-- It is that of the mantissa and the exponent. -/
theorem roundHalfUp_eq (m : Nat) {e : Int} (hleast : -1074 ≤ e) :
    roundHalfUp m e = wholeOf (unitsOf m e) := by
  unfold roundHalfUp wholeOf unitsOf
  by_cases he : 0 ≤ e
  · have hpower : power 2 (e + 1074).toNat = power 2 e.toNat * power 2 1074 := by
      rw [← power_add]
      congr 1
      omega
    have hpos : 0 < power 2 1074 := power_pos (by decide) 1074
    rw [if_pos he, hpower]
    generalize power 2 1074 = unit at hpos
    generalize power 2 e.toNat = times
    calc m * times = (2 * (m * times) + 1) / 2 := by omega
      _ = (2 * (m * times) + 1) * unit / (2 * unit) := (Nat.mul_div_mul_right _ _ hpos).symm
      _ = (2 * (m * (times * unit)) + unit) / (2 * unit) := by
        rw [Nat.add_mul, Nat.one_mul, Nat.mul_assoc 2, Nat.mul_assoc m]
  · have hpower : power 2 1074 = power 2 (-e).toNat * power 2 (e + 1074).toNat := by
      rw [← power_add]
      congr 1
      omega
    have hpos : 0 < power 2 (e + 1074).toNat := power_pos (by decide) _
    rw [if_neg he, hpower]
    dsimp only
    generalize power 2 (e + 1074).toNat = times at hpos
    generalize power 2 (-e).toNat = unit
    calc (2 * m + unit) / (2 * unit)
        = (2 * m + unit) * times / (2 * unit * times) := (Nat.mul_div_mul_right _ _ hpos).symm
      _ = (2 * (m * times) + unit * times) / (2 * (unit * times)) := by
        rw [Nat.add_mul, Nat.mul_assoc, Nat.mul_assoc]

/-- The whole number of sixty-four bits nearest to a number of units with a sign. -/
def clampedWhole (negative : Bool) (n : Nat) : Int :=
  max leastSigned64 (min greatestSigned64 (if negative then -(wholeOf n : Int) else wholeOf n))

theorem clampedRound_finite (negative lowest : Bool) (m : Nat) {e : Int} (hleast : -1074 ≤ e) :
    (Binary.finite negative m e lowest).clampedRound = clampedWhole negative (unitsOf m e) := by
  have hround : (Binary.finite negative m e lowest).round? =
      some (if negative then -(roundHalfUp m e : Int) else roundHalfUp m e) := rfl
  unfold Binary.clampedRound clampedWhole
  dsimp only
  rw [hround, ← roundHalfUp_eq m hleast, Option.getD_some]

/-- What overflows lies beyond the whole numbers of sixty-four bits. -/
theorem clampedRound_infinite (negative : Bool) {m : Nat} {e : Int}
    (hleading : 0x10000000000000 ≤ m) (he : 971 < e) :
    (Binary.infinite negative).clampedRound = clampedWhole negative (unitsOf m e) := by
  have hwhole : wholeOf (unitsOf m e) = m * power 2 e.toNat := by
    rw [← roundHalfUp_eq m (by omega), roundHalfUp, if_pos (by omega)]
  have hpower : power 2 11 ≤ power 2 e.toNat := Nat.pow_le_pow_right (by decide) (by omega)
  have hbeyond : 0x8000000000000000 ≤ wholeOf (unitsOf m e) := by
    rw [hwhole]
    exact Nat.le_trans (by decide) (Nat.mul_le_mul hleading hpower)
  unfold clampedWhole
  have hleast : leastSigned64 = -0x8000000000000000 := rfl
  have hgreatest : greatestSigned64 = 0x7FFFFFFFFFFFFFFF := rfl
  cases negative with
  | true =>
    rw [if_pos rfl, Binary.clampedRound]
    omega
  | false =>
    rw [if_neg Bool.false_ne_true, Binary.clampedRound]
    omega

/-- The nearest whole number of a number that is packed is that of its units, even if it
    overflows. -/
theorem roundToInt64_of_packed {y : Float} {s : Sign} {m : Nat} {e : Int} (h : Rounded m e)
    (hy : y.toModel = Float.Model.pack (.finite s m e h.pos)) :
    roundToInt64 y = clampedWhole (isMinus s) (unitsOf m e) := by
  have hunpack : y.toModel.unpack = UnpackedFloat.unpack Format.binary64
      (UnpackedFloat.pack Format.binary64 (.finite s m e h.pos)) := by
    rw [hy]
    rfl
  unfold roundToInt64
  by_cases he : e ≤ 971
  · rw [unpack_pack_canonical s (h.canonical he)] at hunpack
    cases parts y with
    | notANumber hu hb => cases hu.symm.trans hunpack
    | infinite t hu hb => cases hu.symm.trans hunpack
    | zero t hu hb => cases hu.symm.trans hunpack
    | finite t m' e' lowest h' hu hb =>
      cases hu.symm.trans hunpack
      rw [hb]
      exact clampedRound_finite _ _ m h.least
  · rw [unpack_pack_overflow s h.pos (by omega)] at hunpack
    have hleading := h.leading.resolve_right (by omega)
    cases parts y with
    | notANumber hu hb => cases hu.symm.trans hunpack
    | zero t hu hb => cases hu.symm.trans hunpack
    | finite t m' e' lowest h' hu hb => cases hu.symm.trans hunpack
    | infinite t hu hb =>
      cases hu.symm.trans hunpack
      rw [hb]
      exact clampedRound_infinite _ hleading (by omega)

/-! ## Milliseconds -/

theorem thousand_pos : 0 < 1000 * power 2 43 := by decide

/-- One thousand, as arithmetic takes it. -/
theorem unpack_thousand : (1000 : Float).toModel.unpack =
    .finite .positive (1000 * power 2 43) (-43) thousand_pos := rfl

theorem log2_mul_power {n : Nat} (h : 0 < n) (k : Nat) : (n * power 2 k).log2 = n.log2 + k := by
  have hpos : 0 < power 2 k := power_pos (by decide) k
  have hle : 2 ^ n.log2 ≤ n := Nat.log2_self_le (Nat.ne_of_gt h)
  have hlt : n < 2 ^ (n.log2 + 1) := Nat.lt_log2_self
  rw [Nat.log2_eq_iff (Nat.ne_of_gt (Nat.mul_pos h hpos))]
  constructor
  · rw [Nat.pow_add]
    exact Nat.mul_le_mul_right _ hle
  · rw [Nat.add_right_comm, Nat.pow_add]
    exact Nat.mul_lt_mul_of_pos_right hlt hpos

/-- One thousand times a number is the number nearest to one thousand times its units. -/
theorem thousandfold_eq (s : Sign) {m : Nat} {e : Int} (h : Canonical m e) :
    ∃ m' f, ∃ h' : Rounded m' f, unitsOf m' f = nearest (1000 * unitsOf m e) ∧
      roundWithAccuracy Format.binary64 s (m * (1000 * power 2 43)) (e + -43) .exact =
        .finite s m' f h'.pos := by
  have hleast := h.least
  have hthousand : 0 < 1000 * m := Nat.mul_pos (by decide) h.pos
  obtain ⟨i, hi⟩ : ∃ i : Nat, (e + 1074).toNat = i := ⟨_, rfl⟩
  -- The product and its units differ in nothing but the power of two.
  have hproduct : m * (1000 * power 2 43) = 1000 * m * power 2 43 := by
    rw [← Nat.mul_assoc, Nat.mul_comm m 1000]
  have hunits : 1000 * unitsOf m e = 1000 * m * power 2 i := by
    unfold unitsOf
    rw [hi, Nat.mul_assoc]
  have hlog := log2_mul_power hthousand 43
  have hlogUnits := log2_mul_power hthousand i
  rw [hproduct, hunits]
  obtain ⟨k, hk⟩ : ∃ k, surplus (1000 * m * power 2 i) = k := ⟨_, rfl⟩
  have hsurplus : k = (1000 * m).log2 + i - 52 := by
    rw [← hk, surplus, hlogUnits]
  have hwide : i ≤ k := by
    rcases h.leading with hleading | he
    · have hlarge : 61 ≤ (1000 * m).log2 := by
        rw [Nat.le_log2 (Nat.ne_of_gt hthousand)]
        omega
      omega
    · omega
  have hdropped : toEven (1000 * m * power 2 43) ((k : Int) - 1074 - (e + -43)).toNat =
      toEven (1000 * m * power 2 i) k := by
    obtain ⟨j, rfl⟩ : ∃ j, k = i + j := ⟨k - i, by omega⟩
    have hshift : (((i + j : Nat) : Int) - 1074 - (e + -43)).toNat = 43 + j := by omega
    rw [hshift, toEven_mul_power, toEven_mul_power]
  have hle := toEven_surplus_le (1000 * m * power 2 i)
  have hleading := le_toEven_surplus (1000 * m * power 2 i)
  rw [hk] at hle hleading
  have hpos : 0 < toEven (1000 * m * power 2 i) k := by
    rcases hleading with hleading | hzero
    · omega
    · rw [hzero, toEven_zero]
      exact Nat.mul_pos hthousand (power_pos (by decide) i)
  unfold nearest
  rw [hk]
  exact roundWithAccuracy_eq s (by omega) (by omega) hdropped hpos hle hleading

/-- The whole number of milliseconds nearest to a number of units of a second. -/
def millisOf (u : Int) : Int := clampedWhole (decide (u < 0)) (nearest (1000 * u.natAbs))

/-- The milliseconds of a finite number of seconds are those of its units. -/
theorem roundToInt64_thousand {x : Float} (hx : x.isFinite = true) :
    roundToInt64 (x * 1000) = millisOf (Binary.ofFloat x).units := by
  have hmodel : (x * 1000).toModel = Float.Model.pack (UnpackedFloat.mul Format.binary64
      x.toModel.unpack (1000 : Float).toModel.unpack) := rfl
  rw [unpack_thousand] at hmodel
  rcases parts_of_isFinite hx with ⟨s, hu, hunits⟩ | ⟨s, m, e, hm, hu, hunits⟩
  · rw [hu] at hmodel
    rw [hunits]
    show (Binary.ofBits (x * 1000).toModel.toBits.toNat).clampedRound = millisOf 0
    rw [hmodel]
    cases s <;> decide +kernel
  · rw [hu] at hmodel
    obtain ⟨m', f, hrounded, hnearest, hround⟩ := thousandfold_eq s hm
    have hsign : s * Sign.positive = s := by cases s <;> rfl
    have hmul : UnpackedFloat.mul Format.binary64 (.finite s m e hm.pos)
        (.finite .positive (1000 * power 2 43) (-43) thousand_pos) =
          .finite s m' f hrounded.pos := by
      show roundWithAccuracy Format.binary64 (s * .positive) (m * (1000 * power 2 43)) (e + -43)
        .exact = _
      rw [hsign, hround]
    rw [hmul] at hmodel
    rw [roundToInt64_of_packed hrounded hmodel, hunits, hnearest]
    have hpos := unitsOf_pos hm
    unfold millisOf signedUnits
    cases s with
    | positive =>
      have hnegative : decide ((unitsOf m e : Int) < 0) = false := by simp
      show clampedWhole false _ = clampedWhole (decide ((unitsOf m e : Int) < 0)) _
      rw [hnegative]
      rfl
    | negative =>
      have hnegative : decide (-(unitsOf m e : Int) < 0) = true := by
        rw [decide_eq_true_eq]
        omega
      show clampedWhole true _ = clampedWhole (decide (-(unitsOf m e : Int) < 0))
        (nearest (1000 * (-(unitsOf m e : Int)).natAbs))
      rw [hnegative, Int.natAbs_neg]
      rfl

theorem millisOf_mono {u v : Int} (h : u ≤ v) : millisOf u ≤ millisOf v := by
  unfold millisOf clampedWhole
  rcases Int.lt_or_le u 0 with hu | hu
  · rcases Int.lt_or_le v 0 with hv | hv
    · -- Below zero, the later time has fewer units.
      have hwhole := wholeOf_mono (nearest_mono
        (Nat.mul_le_mul_left 1000 (by omega : v.natAbs ≤ u.natAbs)))
      simp only [hu, hv, decide_true, if_true]
      omega
    · simp only [hu, Int.not_lt.mpr hv, decide_true, decide_false, if_true, Bool.false_eq_true,
        if_false]
      omega
  · have hv : 0 ≤ v := Int.le_trans hu h
    have hwhole := wholeOf_mono (nearest_mono
      (Nat.mul_le_mul_left 1000 (by omega : u.natAbs ≤ v.natAbs)))
    simp only [Int.not_lt.mpr hu, Int.not_lt.mpr hv, decide_false, Bool.false_eq_true, if_false]
    omega

/-- The milliseconds of a later time are never fewer. -/
theorem roundToInt64_thousand_mono {x y : Float} (hx : x.isFinite = true) (hy : y.isFinite = true)
    (h : ¬ y < x) : roundToInt64 (x * 1000) ≤ roundToInt64 (y * 1000) := by
  rw [lt_iff_units_lt hy hx] at h
  rw [roundToInt64_thousand hx, roundToInt64_thousand hy]
  exact millisOf_mono (Int.not_lt.mp h)

end Harvest.Number
