/-
  Harvest.Proofs.Backend.Identifiers

  When the items of two records have one identifier. The identifier is the digest of a text that is
  joined of the origin and the own identifier of the record. Its digits are those of no other
  digest (`sha256Hex_inj`), so that it tells joined texts apart unless they are a collision. But
  the colon at which a text is joined may also be part of an origin or of an own identifier: one
  text is joined of as many pairs as it has colons (`joined_eq_iff`). So items have one identifier
  exactly if their records are alike up to where the texts are joined, or if there is a collision
  (`identifiers_meet_iff`).
-/
import Harvest.Proofs.Backend.Selection
import Harvest.Proofs.Json.RoundTrip
import Harvest.Proofs.Text.Utf8

namespace Harvest

/-! ## Digests in hexadecimal digits -/

namespace Digest

/-- Two messages that have one digest. -/
structure Collide (m k : Bytes) : Prop where
  ne : m ≠ k
  digest : sha256 m = sha256 k

theorem digitChar_inj {d e : Nat} (hd : d < 16) (he : e < 16)
    (h : Nat.digitChar d = Nat.digitChar e) : d = e := by
  have hvalue := congrArg Json.hexDigit? h
  rw [Json.hexDigit?_digitChar hd, Json.hexDigit?_digitChar he] at hvalue
  exact Option.some.inj hvalue

theorem length_hexWord (w : UInt32) : (hexWord w).length = 8 := by simp [hexWord]

/-- Eight digits are those of one word only. -/
theorem hexWord_inj {v w : UInt32} (h : hexWord v = hexWord w) : v = w := by
  have hdigit : ∀ i < 8, v.toNat / Number.power 16 i % 16 = w.toNat / Number.power 16 i % 16 := by
    intro i hi
    have hplace := List.map_inj_left.mp h (7 - i) (List.mem_range.mpr (by omega))
    rw [show 7 - (7 - i) = i by omega] at hplace
    exact digitChar_inj (Nat.mod_lt _ (by decide)) (Nat.mod_lt _ (by decide)) hplace
  have hv := v.toNat_lt
  have hw := w.toNat_lt
  apply UInt32.toNat_inj.mp
  have h0 := hdigit 0 (by decide)
  have h1 := hdigit 1 (by decide)
  have h2 := hdigit 2 (by decide)
  have h3 := hdigit 3 (by decide)
  have h4 := hdigit 4 (by decide)
  have h5 := hdigit 5 (by decide)
  have h6 := hdigit 6 (by decide)
  have h7 := hdigit 7 (by decide)
  simp only [Number.power, Nat.pow_eq] at h0 h1 h2 h3 h4 h5 h6 h7
  omega

/-- As all words have eight digits, so many digits are those of one state only. -/
theorem flatMap_hexWord_inj {vs ws : List UInt32} (hlength : vs.length = ws.length)
    (h : vs.flatMap hexWord = ws.flatMap hexWord) : vs = ws := by
  induction vs generalizing ws with
  | nil => exact (List.length_eq_zero_iff.mp hlength.symm).symm
  | cons v vs ih =>
    cases ws with
    | nil => cases hlength
    | cons w ws =>
      have hblocks : (hexWord v).length = (hexWord w).length := by
        rw [length_hexWord, length_hexWord]
      obtain ⟨hword, hrest⟩ := List.append_inj h hblocks
      rw [hexWord_inj hword, ih (Nat.succ.inj hlength) hrest]

theorem State.toList_inj {s t : State} (h : s.toList = t.toList) : s = t := by
  cases s
  cases t
  simpa [State.toList] using h

/-- The digits of a digest are those of no other. -/
theorem sha256Hex_inj {m k : Bytes} : sha256Hex m = sha256Hex k ↔ sha256 m = sha256 k := by
  constructor
  · intro h
    have hdigits := congrArg String.toList h
    simp only [sha256Hex, String.toList_ofList] at hdigits
    exact State.toList_inj (flatMap_hexWord_inj rfl hdigits)
  · intro h
    rw [sha256Hex, sha256Hex, h]

/-- Two messages have the same digits exactly if they are one message or a collision. -/
theorem sha256Hex_eq_iff {m k : Bytes} : sha256Hex m = sha256Hex k ↔ m = k ∨ Collide m k := by
  rw [sha256Hex_inj]
  constructor
  · intro h
    by_cases hsame : m = k
    · exact .inl hsame
    · exact .inr ⟨hsame, h⟩
  · rintro (rfl | h)
    · rfl
    · exact h.digest

end Digest

theorem Utf8.encode_inj {cs ds : List Char} : encode cs = encode ds ↔ cs = ds := by
  constructor
  · intro h
    have hread := congrArg decode h
    rw [decode_encode, decode_encode] at hread
    exact Except.ok.inj hread
  · rintro rfl
    rfl

/-! ## Origins and identifiers that are joined to one text -/

namespace Record

/-- The text that an origin and an own identifier are joined to. -/
def joined (origin id : String) : String := origin ++ ":" ++ id

/-- The octets that the digest is taken of. -/
def message (origin id : String) : Bytes := Utf8.ofString (joined origin id)

/-- Two pairs of an origin and an own identifier that are joined to one text: they are one pair, or
    what stands between two colons of the text belongs to the own identifier in the one pair and to
    the origin in the other. -/
inductive JoinAlike : String → String → String → String → Prop where
  | same (origin id : String) : JoinAlike origin id origin id
  | later (origin between id : String) :
      JoinAlike origin (joined between id) (joined origin between) id
  | earlier (origin between id : String) :
      JoinAlike (joined origin between) id origin (joined between id)

@[simp] theorem toList_joined (origin id : String) :
    (joined origin id).toList = origin.toList ++ ':' :: id.toList := by
  simp [joined, String.toList_append]

theorem uuid_eq (origin id : String) : uuid origin id = Digest.sha256Hex (message origin id) := by
  have hcolon : Utf8.encode (':' :: id.toList) = 0x3A :: Utf8.encode id.toList := rfl
  unfold uuid message Utf8.ofString
  rw [toList_joined, Utf8.encode_append, hcolon]

theorem message_inj {o p i j : String} : message o i = message p j ↔ joined o i = joined p j := by
  unfold message Utf8.ofString
  rw [Utf8.encode_inj, String.toList_inj]

/-- What is joined to one text, but reaches further into it as an origin, has its end from the own
    identifier of the other. -/
theorem joinAlike_of_longer {o p i j : String} {more : List Char}
    (horigin : p.toList = o.toList ++ more) (hid : ':' :: i.toList = more ++ ':' :: j.toList) :
    JoinAlike o i p j := by
  cases more with
  | nil =>
    rw [List.append_nil, String.toList_inj] at horigin
    rw [List.nil_append, List.cons.injEq, String.toList_inj] at hid
    rw [horigin, hid.2]
    exact .same o j
  | cons c between =>
    rw [List.cons_append, List.cons.injEq] at hid
    obtain ⟨rfl, hid⟩ := hid
    have hp : p = joined o (String.ofList between) := by
      apply String.toList_inj.mp
      rw [toList_joined, String.toList_ofList, horigin]
    have hi : i = joined (String.ofList between) j := by
      apply String.toList_inj.mp
      rw [toList_joined, String.toList_ofList, hid]
    rw [hp, hi]
    exact .later o (String.ofList between) j

theorem JoinAlike.symm {o p i j : String} (h : JoinAlike o i p j) : JoinAlike p j o i := by
  cases h with
  | same => exact .same _ _
  | later => exact .earlier _ _ _
  | earlier => exact .later _ _ _

/-- Texts are one exactly if what they are joined of is alike. -/
theorem joined_eq_iff {o p i j : String} : joined o i = joined p j ↔ JoinAlike o i p j := by
  constructor
  · intro h
    have hlists : o.toList ++ ':' :: i.toList = p.toList ++ ':' :: j.toList := by
      rw [← toList_joined, ← toList_joined, h]
    rcases List.append_eq_append_iff.mp hlists with ⟨more, hp, hi⟩ | ⟨more, ho, hj⟩
    · exact joinAlike_of_longer hp hi
    · exact (joinAlike_of_longer ho hj).symm
  · intro h
    apply String.toList_inj.mp
    cases h with
    | same => rfl
    | later => simp
    | earlier => simp

/-- Within one origin only an own identifier itself is alike. -/
theorem JoinAlike.id_eq {o i j : String} (h : JoinAlike o i o j) : i = j := by
  have hjoined := congrArg String.toList (joined_eq_iff.mpr h)
  simpa [String.toList_inj] using hjoined

/-- Pairs that are alike but not the same have a colon in the origin of the one and in the own
    identifier of the other. -/
theorem JoinAlike.eq_or_colons {o p i j : String} (h : JoinAlike o i p j) :
    (o = p ∧ i = j) ∨ (':' ∈ p.toList ∧ ':' ∈ i.toList) ∨ (':' ∈ o.toList ∧ ':' ∈ j.toList) := by
  cases h with
  | same => exact .inl ⟨rfl, rfl⟩
  | later => exact .inr (.inl (by simp))
  | earlier => exact .inr (.inr (by simp))

/-- Identifiers are one exactly if the pairs are alike, or if the digest has a collision. -/
theorem uuid_eq_iff {o p i j : String} :
    uuid o i = uuid p j ↔
      JoinAlike o i p j ∨ Digest.Collide (message o i) (message p j) := by
  rw [uuid_eq, uuid_eq, Digest.sha256Hex_eq_iff, message_inj, joined_eq_iff]

/-! ## Items of records -/

/-- An item is made of a record of an origin that has an own identifier. -/
def Makes (origin id : String) (item : Item) : Prop :=
  ∃ category line next record, HasId record id ∧
    toItem origin category line next record = .ok item

/-- The identifier of the item of a record is that of its origin and its own identifier. -/
theorem Makes.uuid? {origin id : String} {item : Item} (h : Makes origin id item) :
    item.uuid? = some (uuid origin id) := by
  obtain ⟨category, line, next, record, hid, hitem⟩ := h
  obtain ⟨id', seconds, hid', -, rfl⟩ := toItem_eq_ok_iff.mp hitem
  have hsame : id' = id := Option.some.inj ((hasId_iff.mp hid').symm.trans (hasId_iff.mp hid))
  unfold Item.uuid?
  rw [get?_itemOf, hsame]
  rfl

/-- The items of two records have one identifier exactly if the records are alike up to which colon
    parts the origin from the own identifier, or if the digest has a collision. Without a collision
    records of one origin are told apart by their own identifiers, and any two records are unless a
    colon is in the origin of the one and in the own identifier of the other. -/
theorem identifiers_meet_iff (o i p j : String) :
    (uuid o i = uuid p j ↔
      JoinAlike o i p j ∨ Digest.Collide (message o i) (message p j)) ∧
    (∀ a b, Makes o i a → Makes p j b → (a.uuid? = b.uuid? ↔ uuid o i = uuid p j)) ∧
    (JoinAlike o i p j → (o = p → i = j) ∧
      ((o = p ∧ i = j) ∨ (':' ∈ p.toList ∧ ':' ∈ i.toList) ∨
        (':' ∈ o.toList ∧ ':' ∈ j.toList))) := by
  refine ⟨uuid_eq_iff, ?_, ?_⟩
  · intro a b ha hb
    rw [ha.uuid?, hb.uuid?, Option.some.injEq]
  · intro h
    refine ⟨?_, h.eq_or_colons⟩
    rintro rfl
    exact h.id_eq

/-- A record with a text as its own identifier. -/
def named (id : String) : Json :=
  .object [("id", .string id), ("updated", .ofInt 100)]

theorem exists_makes_named (origin id : String) :
    ∃ item, toItem origin recordCategory 0 1 (named id) = .ok item ∧ Makes origin id item :=
  ⟨_, rfl, recordCategory, 0, 1, named id, .text rfl, rfl⟩

/-- A record `b:c` of the file `a` and a record `c` of the file `a:b` are two records of two files
    with one identifier. -/
theorem one_identifier_of_two_files :
    "a" ≠ "a:b" ∧ "b:c" ≠ "c" ∧ ∃ a b,
      toItem "a" recordCategory 0 1 (named "b:c") = .ok a ∧
      toItem "a:b" recordCategory 0 1 (named "c") = .ok b ∧ a.uuid? = b.uuid? := by
  obtain ⟨a, ha, hmadeA⟩ := exists_makes_named "a" "b:c"
  obtain ⟨b, hb, hmadeB⟩ := exists_makes_named "a:b" "c"
  obtain ⟨hidentifiers, hitems, -⟩ := identifiers_meet_iff "a" "b:c" "a:b" "c"
  have halike : JoinAlike "a" "b:c" "a:b" "c" := .later "a" "b" "c"
  refine ⟨by decide, by decide, a, b, ha, hb, ?_⟩
  exact (hitems a b hmadeA hmadeB).mpr (hidentifiers.mpr (.inl halike))

end Record

end Harvest
