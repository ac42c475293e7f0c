/-
  Harvest.Text.Utf8

  Texts as octets. `Utf8.encode` writes characters as UTF-8 and `Utf8.decode` reads an
  octet string back, refusing every string that is not such a form: a stray or missing
  continuation octet, an overlong form, a surrogate, a value past U+10FFFF. It tells which
  octets are at fault.
-/

namespace Harvest

/-- The content of a file, of a queue payload, or of one line of them. -/
abbrev Bytes := List UInt8

/-- The octet that ends a line. -/
def newline : UInt8 := 0x0A

/-- The octet that may stand just before the end of a line. -/
def carriageReturn : UInt8 := 0x0D

namespace Utf8

/-! ## Writing -/

/-- The UTF-8 form of a text. -/
def encode (cs : List Char) : Bytes := cs.flatMap String.utf8EncodeChar

/-- The number of octets of the UTF-8 form of a text. -/
def size : List Char → Nat
  | [] => 0
  | c :: cs => c.utf8Size + size cs

theorem encode_nil : encode [] = [] := rfl

theorem encode_cons (c : Char) (cs : List Char) :
    encode (c :: cs) = String.utf8EncodeChar c ++ encode cs := by
  simp [encode]

theorem encode_append (cs ds : List Char) : encode (cs ++ ds) = encode cs ++ encode ds := by
  simp [encode]

theorem length_encode (cs : List Char) : (encode cs).length = size cs := by
  induction cs with
  | nil => rfl
  | cons c cs ih => simp [encode_cons, size, ih, String.length_utf8EncodeChar]

/-! ## Reading -/

/-- Why octets are no text. -/
inductive Fault where
  /-- The octets from one on begin no character; they are passed over as one. -/
  | invalid (index length : Nat)
  /-- The last character, which begins at an octet, is cut short. -/
  | incomplete (index : Nat)
  deriving DecidableEq, Repr

/-- The words for a fault. -/
def Fault.message : Fault → String
  | .invalid index length =>
    "invalid utf-8 sequence of " ++ toString length ++ " bytes from index " ++ toString index
  | .incomplete index => "incomplete utf-8 byte sequence from index " ++ toString index

/-- What an unfinished character still needs: how many continuation octets, the bounds of
    the next one, the bits gathered so far, and from how many octets. -/
structure Pending where
  owed : Nat
  least : UInt8
  greatest : UInt8
  bits : Nat
  taken : Nat
  deriving DecidableEq, Repr

/-- What the first octet of a character of several octets announces. The bounds on the
    second octet rule out overlong forms, surrogates and values past U+10FFFF. -/
def Pending.ofLead? (b : UInt8) : Option Pending :=
  if b < 0xC2 then none
  else if b ≤ 0xDF then some ⟨1, 0x80, 0xBF, b.toNat - 0xC0, 1⟩
  else if b = 0xE0 then some ⟨2, 0xA0, 0xBF, 0, 1⟩
  else if b = 0xED then some ⟨2, 0x80, 0x9F, 0xD, 1⟩
  else if b ≤ 0xEF then some ⟨2, 0x80, 0xBF, b.toNat - 0xE0, 1⟩
  else if b = 0xF0 then some ⟨3, 0x90, 0xBF, 0, 1⟩
  else if b ≤ 0xF3 then some ⟨3, 0x80, 0xBF, b.toNat - 0xF0, 1⟩
  else if b = 0xF4 then some ⟨3, 0x80, 0x8F, 4, 1⟩
  else none

/-- Reads on from an unfinished character, or from between characters, at an index. -/
def decodeFrom : Nat → Option Pending → Bytes → Except Fault (List Char)
  | _, none, [] => .ok []
  | index, some p, [] => .error (.incomplete (index - p.taken))
  | index, none, b :: bs =>
    if b < 0x80 then (decodeFrom (index + 1) none bs).map (Char.ofNat b.toNat :: ·)
    else
      match Pending.ofLead? b with
      | none => .error (.invalid index 1)
      | some p => decodeFrom (index + 1) (some p) bs
  | index, some p, b :: bs =>
    -- The octet may begin a character itself, so it is not counted to this one.
    if b < p.least || p.greatest < b then .error (.invalid (index - p.taken) p.taken)
    else
      let bits := p.bits * 64 + (b.toNat - 0x80)
      if p.owed ≤ 1 then (decodeFrom (index + 1) none bs).map (Char.ofNat bits :: ·)
      else decodeFrom (index + 1) (some ⟨p.owed - 1, 0x80, 0xBF, bits, p.taken + 1⟩) bs

/-- The text whose UTF-8 form is `bs`, if there is one. -/
def decode (bs : Bytes) : Except Fault (List Char) := decodeFrom 0 none bs

/-- The UTF-8 form of a string. -/
def ofString (s : String) : Bytes := encode s.toList

/-- The string whose UTF-8 form is `bs`, if there is one. -/
def toString? (bs : Bytes) : Option String := (decode bs).toOption.map String.ofList

/-- A text of several widths reads back. -/
example : decode (encode ['a', 'é', '−', '😀']) = .ok ['a', 'é', '−', '😀'] := rfl

/-- A character cut short is no text. -/
example : decode [0x61, 0xC3] = .error (.incomplete 1) := rfl

/-- The octets in front of the one that does not fit are passed over. -/
example : decode [0xF0, 0x9F, 0x98, 0x61] = .error (.invalid 0 3) := rfl

end Utf8
end Harvest
