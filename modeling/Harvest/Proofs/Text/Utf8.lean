/-
  Harvest.Proofs.Text.Utf8

  Texts survive their UTF-8 form (`decode_encode`). The octets of a character are its leading
  octet, which announces how many more there are, and those that continue it, with six bits each;
  the bounds that a leading octet sets are met because a character has its shortest form. They are
  no wider than that, so that nothing else is read (`decode_eq_ok_iff`). Only the character that
  ends a line gives the octet that does (`newline_mem_encode`).
-/
import Harvest.Files.Lines
import Harvest.Text.Utf8

namespace Harvest.Utf8

/-! ## Leading octets -/

theorem ofLead?_two {d : Nat} (hleast : 2 ≤ d) (hgreatest : d < 32) :
    Pending.ofLead? (.ofNat (d + 192)) = some ⟨1, 0x80, 0xBF, d, 1⟩ := by
  have hall : ∀ d : Fin 32, 2 ≤ d.val →
      Pending.ofLead? (.ofNat (d.val + 192)) = some ⟨1, 0x80, 0xBF, d.val, 1⟩ := by
    decide +kernel
  exact hall ⟨d, hgreatest⟩ hleast

/-- The octet behind the first of three rules out overlong forms and surrogates. -/
theorem ofLead?_three {d : Nat} (h : d < 16) :
    Pending.ofLead? (.ofNat (d + 224)) =
      some ⟨2, if d = 0 then 0xA0 else 0x80, if d = 13 then 0x9F else 0xBF, d, 1⟩ := by
  have hall : ∀ d : Fin 16, Pending.ofLead? (.ofNat (d.val + 224)) =
      some ⟨2, if d.val = 0 then 0xA0 else 0x80, if d.val = 13 then 0x9F else 0xBF, d.val, 1⟩ := by
    decide +kernel
  exact hall ⟨d, h⟩

/-- The octet behind the first of four rules out overlong forms and what is past U+10FFFF. -/
theorem ofLead?_four {d : Nat} (h : d < 5) :
    Pending.ofLead? (.ofNat (d + 240)) =
      some ⟨3, if d = 0 then 0x90 else 0x80, if d = 4 then 0x8F else 0xBF, d, 1⟩ := by
  have hall : ∀ d : Fin 5, Pending.ofLead? (.ofNat (d.val + 240)) =
      some ⟨3, if d.val = 0 then 0x90 else 0x80, if d.val = 4 then 0x8F else 0xBF, d.val, 1⟩ := by
    decide +kernel
  exact hall ⟨d, h⟩

/-! ## Octet by octet -/

section

variable {p : Pending} {n d : Nat}

theorem toNat_ofNat (h : n < 256) : (UInt8.ofNat n).toNat = n := by
  rw [UInt8.toNat_ofNat']
  exact Nat.mod_eq_of_lt h

theorem decodeFrom_single (h : n < 128) (index : Nat) (bs : Bytes) :
    decodeFrom index none (.ofNat n :: bs) =
      (decodeFrom (index + 1) none bs).map (Char.ofNat n :: ·) := by
  have hless : UInt8.ofNat n < 0x80 := by
    rw [UInt8.lt_iff_toNat_lt, toNat_ofNat (by omega)]
    exact h
  rw [decodeFrom, if_pos hless, toNat_ofNat (by omega)]

theorem decodeFrom_lead (hleast : 128 ≤ n) (hoctet : n < 256)
    (h : Pending.ofLead? (.ofNat n) = some p) (index : Nat) (bs : Bytes) :
    decodeFrom index none (.ofNat n :: bs) = decodeFrom (index + 1) (some p) bs := by
  have hmore : ¬ UInt8.ofNat n < 0x80 := by
    rw [UInt8.lt_iff_toNat_lt, toNat_ofNat hoctet]
    exact Nat.not_lt.mpr hleast
  rw [decodeFrom, if_neg hmore, h]

/-- An octet of six bits that is within the bounds goes on with a character. -/
theorem decodeFrom_more (h : d < 64) (hleast : p.least.toNat ≤ d + 128)
    (hgreatest : d + 128 ≤ p.greatest.toNat) (index : Nat) (bs : Bytes) :
    decodeFrom index (some p) (.ofNat (d + 128) :: bs) =
      if p.owed ≤ 1 then
        (decodeFrom (index + 1) none bs).map (Char.ofNat (p.bits * 64 + d) :: ·)
      else
        decodeFrom (index + 1) (some ⟨p.owed - 1, 0x80, 0xBF, p.bits * 64 + d, p.taken + 1⟩)
          bs := by
  have hoctet : (UInt8.ofNat (d + 128)).toNat = d + 128 := toNat_ofNat (by omega)
  have hwithin : (decide (UInt8.ofNat (d + 128) < p.least) ||
      decide (p.greatest < UInt8.ofNat (d + 128))) = false := by
    rw [Bool.or_eq_false_iff, decide_eq_false_iff_not, decide_eq_false_iff_not,
      UInt8.lt_iff_toNat_lt, UInt8.lt_iff_toNat_lt, hoctet]
    omega
  rw [decodeFrom, hwithin, hoctet, Nat.add_sub_cancel]
  rfl

/-- An octet of six bits that is neither the first behind the leading one nor the last goes on. -/
theorem decodeFrom_next (h : d < 64) (owed bits taken index : Nat) (bs : Bytes) :
    decodeFrom index (some ⟨owed + 2, 0x80, 0xBF, bits, taken⟩) (.ofNat (d + 128) :: bs) =
      decodeFrom (index + 1) (some ⟨owed + 1, 0x80, 0xBF, bits * 64 + d, taken + 1⟩) bs := by
  have hmore := decodeFrom_more (p := ⟨owed + 2, 0x80, 0xBF, bits, taken⟩) h
    (by show 128 ≤ _; omega) (by show _ ≤ 191; omega) index bs
  rw [if_neg (by simp)] at hmore
  exact hmore

/-- An octet of six bits that is the last one of a character ends it. -/
theorem decodeFrom_last (h : d < 64) (bits taken index : Nat) (bs : Bytes) :
    decodeFrom index (some ⟨1, 0x80, 0xBF, bits, taken⟩) (.ofNat (d + 128) :: bs) =
      (decodeFrom (index + 1) none bs).map (Char.ofNat (bits * 64 + d) :: ·) := by
  have hmore := decodeFrom_more (p := ⟨1, 0x80, 0xBF, bits, taken⟩) h
    (by show 128 ≤ _; omega) (by show _ ≤ 191; omega) index bs
  rw [if_pos (Nat.le_refl 1)] at hmore
  exact hmore

end

/-! ## Whole texts -/

/-- The octets of a character: its bits in groups of six, the first of which is shorter. The
    character could not do with fewer octets, and is no surrogate. -/
inductive Octets (c : Char) : Bytes → Prop where
  | one (h : c.toNat < 128) : Octets c [.ofNat c.toNat]
  | two {a b : Nat} (ha : a < 32) (hb : b < 64) (hbits : a * 64 + b = c.toNat)
      (hshort : 2 ≤ a) : Octets c [.ofNat (a + 192), .ofNat (b + 128)]
  | three {a b d : Nat} (ha : a < 16) (hb : b < 64) (hd : d < 64)
      (hbits : (a * 64 + b) * 64 + d = c.toNat) (hshort : a = 0 → 32 ≤ b)
      (hsurrogate : a = 13 → b < 32) :
      Octets c [.ofNat (a + 224), .ofNat (b + 128), .ofNat (d + 128)]
  | four {a b d e : Nat} (ha : a < 5) (hb : b < 64) (hd : d < 64) (he : e < 64)
      (hbits : ((a * 64 + b) * 64 + d) * 64 + e = c.toNat) (hshort : a = 0 → 16 ≤ b)
      (hgreatest : a = 4 → b < 16) :
      Octets c [.ofNat (a + 240), .ofNat (b + 128), .ofNat (d + 128), .ofNat (e + 128)]

theorem octets_utf8EncodeChar (c : Char) : Octets c (String.utf8EncodeChar c) := by
  have hvalid : c.toNat < 0xD800 ∨ 0xDFFF < c.toNat ∧ c.toNat < 0x110000 := c.valid
  have hsame : c.val.toNat = c.toNat := rfl
  unfold String.utf8EncodeChar
  rw [hsame]
  dsimp only
  split
  · exact .one (by omega)
  · split
    · exact .two (by omega) (by omega) (by omega) (by omega)
    · split
      · exact .three (by omega) (by omega) (by omega) (by omega) (by omega) (by omega)
      · exact .four (by omega) (by omega) (by omega) (by omega) (by omega) (by omega) (by omega)

/-- The octet behind the first of three is within the bounds that the first one sets. -/
theorem bounds_three {a b : Nat} (hb : b < 64) (hshort : a = 0 → 32 ≤ b)
    (hsurrogate : a = 13 → b < 32) :
    UInt8.toNat (if a = 0 then 0xA0 else 0x80) ≤ b + 128 ∧
      b + 128 ≤ UInt8.toNat (if a = 13 then 0x9F else 0xBF) := by
  constructor
  · split
    · show 160 ≤ _
      omega
    · show 128 ≤ _
      omega
  · split
    · show _ ≤ 159
      omega
    · show _ ≤ 191
      omega

/-- The octet behind the first of four is within the bounds that the first one sets. -/
theorem bounds_four {a b : Nat} (hb : b < 64) (hshort : a = 0 → 16 ≤ b)
    (hgreatest : a = 4 → b < 16) :
    UInt8.toNat (if a = 0 then 0x90 else 0x80) ≤ b + 128 ∧
      b + 128 ≤ UInt8.toNat (if a = 4 then 0x8F else 0xBF) := by
  constructor
  · split
    · show 144 ≤ _
      omega
    · show 128 ≤ _
      omega
  · split
    · show _ ≤ 143
      omega
    · show _ ≤ 191
      omega

/-- The octets of a character read back as it. -/
theorem decodeFrom_octets {c : Char} {octets : Bytes} (h : Octets c octets) (index : Nat)
    (bs : Bytes) :
    decodeFrom index none (octets ++ bs) =
      (decodeFrom (index + octets.length) none bs).map (c :: ·) := by
  have hchar : Char.ofNat c.toNat = c := Char.ofNat_toNat c
  cases h with
  | one h => rw [List.singleton_append, decodeFrom_single h, hchar, List.length_singleton]
  | @two a b ha hb hbits hshort =>
    rw [List.cons_append, decodeFrom_lead (by omega) (by omega) (ofLead?_two hshort ha),
      List.singleton_append, decodeFrom_last hb, hbits, hchar]
    rfl
  | @three a b d ha hb hd hbits hshort hsurrogate =>
    obtain ⟨hleast, hgreatest⟩ := bounds_three hb hshort hsurrogate
    rw [List.cons_append, decodeFrom_lead (by omega) (by omega) (ofLead?_three ha),
      List.cons_append, decodeFrom_more hb hleast hgreatest, if_neg (by decide : ¬ 2 ≤ 1),
      List.singleton_append]
    dsimp only
    rw [decodeFrom_last hd, hbits, hchar]
    rfl
  | @four a b d e ha hb hd he hbits hshort hgreatest =>
    obtain ⟨hleast, hgreatest⟩ := bounds_four hb hshort hgreatest
    rw [List.cons_append, decodeFrom_lead (by omega) (by omega) (ofLead?_four ha),
      List.cons_append, decodeFrom_more hb hleast hgreatest, if_neg (by decide : ¬ 3 ≤ 1),
      List.cons_append]
    dsimp only
    rw [decodeFrom_next hd 0, List.singleton_append, decodeFrom_last he, hbits, hchar]
    rfl

/-- A text is read back, and what comes behind it is read on its own. -/
theorem decodeFrom_append (index : Nat) (cs : List Char) (bs : Bytes) :
    decodeFrom index none (encode cs ++ bs) =
      (decodeFrom (index + (encode cs).length) none bs).map (cs ++ ·) := by
  induction cs generalizing index with
  | nil => cases h : decodeFrom index none bs <;> simp [encode_nil, h, Except.map]
  | cons c cs ih =>
    rw [encode_cons, List.append_assoc, decodeFrom_octets (octets_utf8EncodeChar c), ih,
      List.length_append, Nat.add_assoc]
    cases decodeFrom (index + _) none bs <;> rfl

/-- A text is read back from its UTF-8 form. -/
theorem decode_encode (cs : List Char) : decode (encode cs) = .ok cs := by
  have hread := decodeFrom_append 0 cs []
  rw [List.append_nil] at hread
  exact hread.trans (congrArg Except.ok (List.append_nil cs))

/-! ## Octets that are read -/

/-- What an octet that begins a character of several octets announces. -/
theorem ofLead?_eq_some {b : UInt8} {p : Pending} (h : Pending.ofLead? b = some p) :
    (∃ a, 2 ≤ a ∧ a < 32 ∧ b = .ofNat (a + 192) ∧ p = ⟨1, 0x80, 0xBF, a, 1⟩) ∨
    (∃ a, a < 16 ∧ b = .ofNat (a + 224) ∧
      p = ⟨2, if a = 0 then 0xA0 else 0x80, if a = 13 then 0x9F else 0xBF, a, 1⟩) ∨
    ∃ a, a < 5 ∧ b = .ofNat (a + 240) ∧
      p = ⟨3, if a = 0 then 0x90 else 0x80, if a = 4 then 0x8F else 0xBF, a, 1⟩ := by
  have hall : ∀ n : Fin 256, (Pending.ofLead? (.ofNat n.val)).isSome = true →
      194 ≤ n.val ∧ n.val < 245 := by decide +kernel
  have hb : UInt8.ofNat b.toNat = b := UInt8.ofNat_toNat
  obtain ⟨hleast, hgreatest⟩ := hall ⟨b.toNat, b.toNat_lt⟩ (by rw [hb, h]; rfl)
  dsimp only at hleast hgreatest
  by_cases htwo : b.toNat < 224
  · left
    refine ⟨b.toNat - 192, by omega, by omega, ?_, ?_⟩
    · rw [Nat.sub_add_cancel (by omega), hb]
    · have hlead := ofLead?_two (d := b.toNat - 192) (by omega) (by omega)
      rw [Nat.sub_add_cancel (by omega), hb, h] at hlead
      exact Option.some.inj hlead
  · right
    by_cases hthree : b.toNat < 240
    · left
      refine ⟨b.toNat - 224, by omega, ?_, ?_⟩
      · rw [Nat.sub_add_cancel (by omega), hb]
      · have hlead := ofLead?_three (d := b.toNat - 224) (by omega)
        rw [Nat.sub_add_cancel (by omega), hb, h] at hlead
        exact Option.some.inj hlead
    · right
      refine ⟨b.toNat - 240, by omega, ?_, ?_⟩
      · rw [Nat.sub_add_cancel (by omega), hb]
      · have hlead := ofLead?_four (d := b.toNat - 240) (by omega)
        rw [Nat.sub_add_cancel (by omega), hb, h] at hlead
        exact Option.some.inj hlead

/-- An octet that goes on with a character has six bits, and is within the bounds. -/
theorem more_of_decodeFrom {p : Pending} {index : Nat} {bs : Bytes} {cs : List Char}
    (hbounds : 128 ≤ p.least.toNat ∧ p.greatest.toNat ≤ 191)
    (h : decodeFrom index (some p) bs = .ok cs) :
    ∃ d rest, bs = .ofNat (d + 128) :: rest ∧ d < 64 ∧ p.least.toNat ≤ d + 128 ∧
      d + 128 ≤ p.greatest.toNat := by
  cases bs with
  | nil => cases h
  | cons b bs =>
    by_cases hwithin : p.least.toNat ≤ b.toNat ∧ b.toNat ≤ p.greatest.toNat
    · have hb : UInt8.ofNat (b.toNat - 128 + 128) = b := by
        rw [Nat.sub_add_cancel (by omega)]
        exact UInt8.ofNat_toNat
      exact ⟨b.toNat - 128, bs, by rw [hb], by omega, by omega, by omega⟩
    · have hout : (decide (b < p.least) || decide (p.greatest < b)) = true := by
        rw [Bool.or_eq_true, decide_eq_true_iff, decide_eq_true_iff, UInt8.lt_iff_toNat_lt,
          UInt8.lt_iff_toNat_lt]
        omega
      rw [decodeFrom, hout] at h
      cases h

/-- The octet behind a leading one that announces two more or three is within the bounds. -/
theorem second_of_decodeFrom {owed bits taken index : Nat} {least greatest : UInt8} {bs : Bytes}
    {cs : List Char} (hbounds : 128 ≤ least.toNat ∧ greatest.toNat ≤ 191)
    (h : decodeFrom index (some ⟨owed + 2, least, greatest, bits, taken⟩) bs = .ok cs) :
    ∃ d rest, bs = .ofNat (d + 128) :: rest ∧ d < 64 ∧ least.toNat ≤ d + 128 ∧
      d + 128 ≤ greatest.toNat ∧
      decodeFrom (index + 1) (some ⟨owed + 1, 0x80, 0xBF, bits * 64 + d, taken + 1⟩) rest =
        .ok cs := by
  obtain ⟨d, rest, rfl, hd, hleast, hgreatest⟩ := more_of_decodeFrom hbounds h
  rw [decodeFrom_more hd hleast hgreatest, if_neg (by simp)] at h
  exact ⟨d, rest, rfl, hd, hleast, hgreatest, h⟩

theorem last_of_decodeFrom {bits taken index : Nat} {bs : Bytes} {cs : List Char}
    (h : decodeFrom index (some ⟨1, 0x80, 0xBF, bits, taken⟩) bs = .ok cs) :
    ∃ d rest later, bs = .ofNat (d + 128) :: rest ∧ d < 64 ∧
      cs = Char.ofNat (bits * 64 + d) :: later ∧ decodeFrom (index + 1) none rest = .ok later := by
  obtain ⟨d, rest, rfl, hd, -, -⟩ := more_of_decodeFrom ⟨Nat.le_refl _, Nat.le_refl _⟩ h
  rw [decodeFrom_last hd] at h
  cases hlater : decodeFrom (index + 1) none rest with
  | error f =>
    rw [hlater] at h
    cases h
  | ok later =>
    rw [hlater] at h
    cases h
    exact ⟨d, rest, later, rfl, hd, rfl, hlater⟩

/-- Characters have only one UTF-8 form. -/
theorem Octets.eq {c : Char} {octets : Bytes} (h : Octets c octets) :
    octets = String.utf8EncodeChar c := by
  have hsame : c.val.toNat = c.toNat := rfl
  unfold String.utf8EncodeChar
  rw [hsame]
  dsimp only
  cases h with
  | one h => rw [if_pos (by omega)]
  | @two a b ha hb hbits hshort =>
    rw [if_neg (by omega), if_pos (by omega)]
    have hfirst : a + 192 = c.toNat / 64 % 32 + 192 := by omega
    have hsecond : b + 128 = c.toNat % 64 + 128 := by omega
    rw [hfirst, hsecond]
  | @three a b d ha hb hd hbits hshort hsurrogate =>
    rw [if_neg (by omega), if_neg (by omega), if_pos (by omega)]
    have hfirst : a + 224 = c.toNat / 4096 % 16 + 224 := by omega
    have hsecond : b + 128 = c.toNat / 64 % 64 + 128 := by omega
    have hthird : d + 128 = c.toNat % 64 + 128 := by omega
    rw [hfirst, hsecond, hthird]
  | @four a b d e ha hb hd he hbits hshort hgreatest =>
    rw [if_neg (by omega), if_neg (by omega), if_neg (by omega)]
    have hfirst : a + 240 = c.toNat / 262144 % 8 + 240 := by omega
    have hsecond : b + 128 = c.toNat / 4096 % 64 + 128 := by omega
    have hthird : d + 128 = c.toNat / 64 % 64 + 128 := by omega
    have hfourth : e + 128 = c.toNat % 64 + 128 := by omega
    rw [hfirst, hsecond, hthird, hfourth]

theorem toNat_char {n : Nat} (h : n < 0xD800 ∨ 0xDFFF < n ∧ n < 0x110000) :
    (Char.ofNat n).toNat = n := by
  have hvalid : n.isValidChar := h
  unfold Char.ofNat
  rw [dif_pos hvalid]
  rfl

/-- Within its bounds, the second of three octets makes no overlong form and no surrogate. -/
theorem within_three {a b : Nat} (hleast : UInt8.toNat (if a = 0 then 0xA0 else 0x80) ≤ b + 128)
    (hgreatest : b + 128 ≤ UInt8.toNat (if a = 13 then 0x9F else 0xBF)) :
    (a = 0 → 32 ≤ b) ∧ (a = 13 → b < 32) := by
  constructor
  · intro ha
    rw [if_pos ha] at hleast
    have hleast : 160 ≤ b + 128 := hleast
    omega
  · intro ha
    rw [if_pos ha] at hgreatest
    have hgreatest : b + 128 ≤ 159 := hgreatest
    omega

/-- Within its bounds, the second of four octets makes no overlong form and nothing past the last
    character. -/
theorem within_four {a b : Nat} (hleast : UInt8.toNat (if a = 0 then 0x90 else 0x80) ≤ b + 128)
    (hgreatest : b + 128 ≤ UInt8.toNat (if a = 4 then 0x8F else 0xBF)) :
    (a = 0 → 16 ≤ b) ∧ (a = 4 → b < 16) := by
  constructor
  · intro ha
    rw [if_pos ha] at hleast
    have hleast : 144 ≤ b + 128 := hleast
    omega
  · intro ha
    rw [if_pos ha] at hgreatest
    have hgreatest : b + 128 ≤ 143 := hgreatest
    omega

/-- What is read from octets begins with the octets of a character, if there are any. -/
theorem octets_of_decodeFrom {index : Nat} {b : UInt8} {bs : Bytes} {cs : List Char}
    (h : decodeFrom index none (b :: bs) = .ok cs) :
    ∃ c octets rest later i, b :: bs = octets ++ rest ∧ Octets c octets ∧ cs = c :: later ∧
      decodeFrom i none rest = .ok later := by
  by_cases hsingle : b < 0x80
  · have hless : b.toNat < 128 := UInt8.lt_iff_toNat_lt.mp hsingle
    have hchar := toNat_char (n := b.toNat) (by omega)
    have hoctets : Octets (Char.ofNat b.toNat) [.ofNat (Char.ofNat b.toNat).toNat] :=
      .one (by omega)
    rw [hchar, UInt8.ofNat_toNat] at hoctets
    rw [decodeFrom, if_pos hsingle] at h
    cases hlater : decodeFrom (index + 1) none bs with
    | error f =>
      rw [hlater] at h
      cases h
    | ok later =>
      rw [hlater] at h
      cases h
      exact ⟨_, [b], bs, later, _, rfl, hoctets, rfl, hlater⟩
  · rw [decodeFrom, if_neg hsingle] at h
    cases hlead : Pending.ofLead? b with
    | none =>
      rw [hlead] at h
      cases h
    | some p =>
      rw [hlead] at h
      dsimp only at h
      rcases ofLead?_eq_some hlead with ⟨a, hshort, ha, rfl, rfl⟩ | ⟨a, ha, rfl, rfl⟩ |
        ⟨a, ha, rfl, rfl⟩
      · obtain ⟨d, rest, later, rfl, hd, rfl, hlater⟩ := last_of_decodeFrom h
        have hchar := toNat_char (n := a * 64 + d) (by omega)
        exact ⟨_, _, rest, later, _, rfl, .two ha hd hchar.symm hshort, rfl, hlater⟩
      · obtain ⟨d, rest, rfl, hd, hleast, hgreatest, h⟩ :=
          second_of_decodeFrom (by constructor <;> split <;> decide) h
        obtain ⟨e, rest, later, rfl, he, rfl, hlater⟩ := last_of_decodeFrom h
        obtain ⟨hshort, hsurrogate⟩ := within_three hleast hgreatest
        have hchar := toNat_char (n := (a * 64 + d) * 64 + e) (by omega)
        exact ⟨_, _, rest, later, _, rfl, .three ha hd he hchar.symm hshort hsurrogate, rfl,
          hlater⟩
      · obtain ⟨d, rest, rfl, hd, hleast, hgreatest, h⟩ :=
          second_of_decodeFrom (by constructor <;> split <;> decide) h
        obtain ⟨e, rest, rfl, he, -, -, h⟩ :=
          second_of_decodeFrom ⟨Nat.le_refl _, Nat.le_refl _⟩ h
        obtain ⟨f, rest, later, rfl, hf, rfl, hlater⟩ := last_of_decodeFrom h
        obtain ⟨hshort, hpast⟩ := within_four hleast hgreatest
        have hchar := toNat_char (n := ((a * 64 + d) * 64 + e) * 64 + f) (by omega)
        exact ⟨_, _, rest, later, _, rfl, .four ha hd he hf hchar.symm hshort hpast, rfl, hlater⟩

/-- Octets are read only as the text whose UTF-8 form they are. -/
theorem decode_eq_ok_iff {bs : Bytes} {cs : List Char} : decode bs = .ok cs ↔ encode cs = bs := by
  constructor
  · intro h
    suffices hfrom : ∀ index, decodeFrom index none bs = .ok cs → encode cs = bs from hfrom 0 h
    clear h
    -- Every character takes octets away, so that the induction is on how many there are.
    induction hlength : bs.length using Nat.strongRecOn generalizing bs cs with
    | ind length ih =>
      intro index h
      cases bs with
      | nil =>
        cases h
        rfl
      | cons b bs =>
        obtain ⟨c, octets, rest, later, i, hbs, hoctets, rfl, hlater⟩ := octets_of_decodeFrom h
        have hsome : 0 < octets.length := by
          rw [hoctets.eq, String.length_utf8EncodeChar]
          exact c.utf8Size_pos
        have hless : rest.length < length := by
          rw [← hlength, hbs, List.length_append]
          omega
        rw [encode_cons, ih rest.length hless rfl i hlater, ← hoctets.eq, hbs]
  · rintro rfl
    exact decode_encode cs
/-! ## Texts cut short -/

/-- The octets of a character that are cut short are found to be. -/
theorem decodeFrom_cut {c : Char} {octets part : Bytes} (h : Octets c octets)
    (hpart : part <+: octets) (hsome : part ≠ []) (hcut : part ≠ octets) (index : Nat) :
    decodeFrom index none part = .error (.incomplete index) := by
  cases h with
  | one h =>
    rcases List.prefix_cons_iff.mp hpart with rfl | ⟨rest, rfl, hrest⟩
    · exact absurd rfl hsome
    · exact absurd (congrArg _ (List.prefix_nil.mp hrest)) hcut
  | @two a b ha hb hbits hshort =>
    simp only [List.prefix_cons_iff, List.prefix_nil] at hpart
    obtain rfl | ⟨_, rfl, rfl | ⟨_, rfl, rfl⟩⟩ := hpart
    · exact absurd rfl hsome
    · rw [decodeFrom_lead (by omega) (by omega) (ofLead?_two hshort ha)]
      rfl
    · exact absurd rfl hcut
  | @three a b d ha hb hd hbits hshort hsurrogate =>
    obtain ⟨hleast, hgreatest⟩ := bounds_three hb hshort hsurrogate
    simp only [List.prefix_cons_iff, List.prefix_nil] at hpart
    obtain rfl | ⟨_, rfl, rfl | ⟨_, rfl, rfl | ⟨_, rfl, rfl⟩⟩⟩ := hpart
    · exact absurd rfl hsome
    · rw [decodeFrom_lead (by omega) (by omega) (ofLead?_three ha)]
      rfl
    · rw [decodeFrom_lead (by omega) (by omega) (ofLead?_three ha),
        decodeFrom_more hb hleast hgreatest, if_neg (by decide : ¬ 2 ≤ 1)]
      rfl
    · exact absurd rfl hcut
  | @four a b d e ha hb hd he hbits hshort hgreatest =>
    obtain ⟨hleast, hgreatest⟩ := bounds_four hb hshort hgreatest
    simp only [List.prefix_cons_iff, List.prefix_nil] at hpart
    obtain rfl | ⟨_, rfl, rfl | ⟨_, rfl, rfl | ⟨_, rfl, rfl | ⟨_, rfl, rfl⟩⟩⟩⟩ := hpart
    · exact absurd rfl hsome
    · rw [decodeFrom_lead (by omega) (by omega) (ofLead?_four ha)]
      rfl
    · rw [decodeFrom_lead (by omega) (by omega) (ofLead?_four ha),
        decodeFrom_more hb hleast hgreatest, if_neg (by decide : ¬ 3 ≤ 1)]
      rfl
    · rw [decodeFrom_lead (by omega) (by omega) (ofLead?_four ha),
        decodeFrom_more hb hleast hgreatest, if_neg (by decide : ¬ 3 ≤ 1)]
      dsimp only
      rw [decodeFrom_next hd 0]
      rfl
    · exact absurd rfl hcut

/-- Where the form of a text may be cut short: between two of its characters, which leaves a text,
    or inside one of them. -/
inductive Cut (cs : List Char) : Bytes → Prop where
  | between {front back : List Char} (h : cs = front ++ back) : Cut cs (encode front)
  | inside {front back : List Char} {c : Char} {part : Bytes} (h : cs = front ++ c :: back)
      (hpart : part <+: String.utf8EncodeChar c) (hsome : part ≠ [])
      (hcut : part ≠ String.utf8EncodeChar c) : Cut cs (encode front ++ part)

theorem Cut.cons {c : Char} {cs : List Char} {bs : Bytes} (h : Cut cs bs) :
    Cut (c :: cs) (String.utf8EncodeChar c ++ bs) := by
  cases h with
  | @between front back h =>
    have hcons : c :: cs = (c :: front) ++ back := by rw [h, List.cons_append]
    rw [← encode_cons]
    exact .between hcons
  | @inside front back d part h hpart hsome hcut =>
    have hcons : c :: cs = (c :: front) ++ d :: back := by rw [h, List.cons_append]
    rw [← List.append_assoc, ← encode_cons]
    exact .inside hcons hpart hsome hcut

/-- A text may be cut short nowhere else. -/
theorem cut_of_prefix {cs : List Char} {bs : Bytes} (h : bs <+: encode cs) : Cut cs bs := by
  induction cs generalizing bs with
  | nil =>
    rw [List.prefix_nil.mp h]
    exact .between (List.nil_append []).symm
  | cons c cs ih =>
    rw [encode_cons] at h
    rcases List.prefix_or_prefix_of_prefix h (List.prefix_append _ _) with hpart | ⟨rest, rfl⟩
    · by_cases hsome : bs = []
      · rw [hsome]
        exact .between (List.nil_append _).symm
      · by_cases hcut : bs = String.utf8EncodeChar c
        · rw [hcut, ← List.append_nil (String.utf8EncodeChar c)]
          exact (ih (List.nil_prefix)).cons
        · exact .inside (List.nil_append _).symm hpart hsome hcut
    · exact (ih ((List.prefix_append_right_inj _).mp h)).cons

/-- A text that is cut short inside a character is refused, and is found to be incomplete. -/
theorem decode_inside {front : List Char} {c : Char} {part : Bytes}
    (hpart : part <+: String.utf8EncodeChar c) (hsome : part ≠ [])
    (hcut : part ≠ String.utf8EncodeChar c) :
    decode (encode front ++ part) = .error (.incomplete (encode front).length) := by
  unfold decode
  rw [decodeFrom_append, Nat.zero_add,
    decodeFrom_cut (octets_utf8EncodeChar c) hpart hsome hcut]
  rfl

/-- The octets behind a leading one are past the first half. -/
theorem least_of_ofLead? {b : UInt8} {p : Pending} (h : Pending.ofLead? b = some p) :
    0x80 ≤ p.least := by
  have hall : ∀ n : Fin 256, ∀ p ∈ Pending.ofLead? (.ofNat n.val), 0x80 ≤ p.least := by
    decide +kernel
  have hb : UInt8.ofNat b.toNat = b := UInt8.ofNat_toNat
  rw [← hb] at h
  exact hall ⟨b.toNat, b.toNat_lt⟩ p h

/-- A character that is cut short cannot go on with an octet of the first half. -/
theorem decodeFrom_broken {b : UInt8} (hb : b < 0x80) (rest : Bytes) {bs : Bytes} {index k : Nat}
    {pending : Option Pending} (hleast : ∀ p ∈ pending, 0x80 ≤ p.least)
    (h : decodeFrom index pending bs = .error (.incomplete k)) :
    ∃ f, decodeFrom index pending (bs ++ b :: rest) = .error f := by
  have hfault : ∀ {result : Except Fault (List Char)} {c : Char},
      result.map (c :: ·) = .error (.incomplete k) → result = .error (.incomplete k) := by
    intro result c h
    cases result with
    | ok cs => cases h
    | error f =>
      cases h
      rfl
  have hbetween : ∀ p ∈ (none : Option Pending), 0x80 ≤ p.least :=
    fun p hp => absurd hp (Option.not_mem_none p)
  -- The octets are taken as they were, up to the character that is left pending.
  induction bs generalizing index pending with
  | nil =>
    cases pending with
    | none => cases h
    | some p =>
      have hless : b < p.least := UInt8.lt_of_lt_of_le hb (hleast p rfl)
      refine ⟨.invalid (index - p.taken) p.taken, ?_⟩
      rw [List.nil_append, decodeFrom, if_pos (by simp [hless])]
  | cons c bs ih =>
    rw [List.cons_append]
    cases pending with
    | none =>
      rw [decodeFrom] at h ⊢
      split at h
      · next hc =>
        obtain ⟨f, hf⟩ := ih hbetween (hfault h)
        rw [if_pos hc, hf]
        exact ⟨f, rfl⟩
      · next hc =>
        rw [if_neg hc]
        cases hlead : Pending.ofLead? c with
        | none =>
          rw [hlead] at h
          cases h
        | some p =>
          rw [hlead] at h
          refine ih ?_ h
          rintro q ⟨⟩
          exact least_of_ofLead? hlead
    | some p =>
      rw [decodeFrom] at h ⊢
      split at h
      · cases h
      · next hc =>
        rw [if_neg hc]
        dsimp only at h ⊢
        split at h
        · next hlast =>
          obtain ⟨f, hf⟩ := ih hbetween (hfault h)
          rw [if_pos hlast, hf]
          exact ⟨f, rfl⟩
        · next hmore =>
          rw [if_neg hmore]
          refine ih ?_ h
          rintro q ⟨⟩
          exact UInt8.le_refl _

/-- What is incomplete is refused whatever stands behind it, if that begins with an octet of the
    first half. -/
theorem decode_broken {bs : Bytes} {k : Nat} (h : decode bs = .error (.incomplete k)) {b : UInt8}
    (hb : b < 0x80) (rest : Bytes) : ∃ f, decode (bs ++ b :: rest) = .error f :=
  decodeFrom_broken hb rest (fun p hp => absurd hp (Option.not_mem_none p)) h

/-! ## The ends of lines -/

theorem newline_ne_ofNat {n : Nat} (hleast : 10 < n) (hoctet : n < 256) :
    newline ≠ .ofNat n := by
  intro heq
  have hnat := congrArg UInt8.toNat heq
  rw [toNat_ofNat hoctet] at hnat
  have hten : newline.toNat = 10 := rfl
  omega

/-- No other character gives the octet that ends a line. -/
theorem eq_of_newline_mem {c : Char} {octets : Bytes} (hoctets : Octets c octets)
    (h : newline ∈ octets) : c = '\n' := by
  cases hoctets with
  | one hone =>
    have heq := congrArg UInt8.toNat (List.mem_singleton.mp h)
    rw [toNat_ofNat (by omega)] at heq
    have hten : newline.toNat = 10 := rfl
    rw [← Char.ofNat_toNat c, ← heq, hten]
  -- All octets of the other forms are past the first half.
  | two ha hb hbits hshort =>
    simp only [List.mem_cons, List.not_mem_nil, or_false] at h
    rcases h with h | h
    all_goals exact absurd h (newline_ne_ofNat (by omega) (by omega))
  | three ha hb hd hbits hshort hsurrogate =>
    simp only [List.mem_cons, List.not_mem_nil, or_false] at h
    rcases h with h | h | h
    all_goals exact absurd h (newline_ne_ofNat (by omega) (by omega))
  | four ha hb hd he hbits hshort hgreatest =>
    simp only [List.mem_cons, List.not_mem_nil, or_false] at h
    rcases h with h | h | h | h
    all_goals exact absurd h (newline_ne_ofNat (by omega) (by omega))

theorem newline_mem_encode {cs : List Char} (h : newline ∈ encode cs) : '\n' ∈ cs := by
  obtain ⟨c, hc, hmem⟩ := List.mem_flatMap.mp h
  rw [← eq_of_newline_mem (octets_utf8EncodeChar c) hmem]
  exact hc

end Harvest.Utf8

namespace Harvest

/-- A line that is ended is cut off, whatever comes behind it. -/
theorem linesOf_ended {body : Bytes} (h : newline ∉ body) (rest : Bytes) :
    linesOf (body ++ newline :: rest) = (body ++ [newline]) :: linesOf rest := by
  induction body with
  | nil => exact linesOf_cons_newline rest
  | cons b body ih =>
    have hb : b ≠ newline := by
      rintro rfl
      exact h List.mem_cons_self
    have hbody : newline ∉ body := fun hmem => h (List.mem_cons_of_mem b hmem)
    rw [List.cons_append, linesOf_cons_of_ne hb, ih hbody]
    rfl

theorem isEnded_concat (body : Bytes) : isEnded (body ++ [newline]) = true := by
  unfold isEnded
  rw [List.getLast?_concat]
  rfl

end Harvest
