/-
  Harvest.Job.Identifier

  Identifiers that are made up of random octets, in the form of a UUID of version 4.
-/
import Harvest.Text.Utf8

namespace Harvest.Identifier

/-- The digits of an octet in base sixteen. -/
def octetChars (b : UInt8) : List Char :=
  [Nat.digitChar (b.toNat / 16), Nat.digitChar (b.toNat % 16)]

/-- An octet whose high bits are replaced by those of a mark: the version or the variant. -/
def marked (mark keep b : UInt8) : UInt8 := mark ||| (b &&& keep)

/-- The identifier of sixteen random octets, of which six bits give way to the version and
    the variant. -/
def ofOctets (octet : Nat → UInt8) : String :=
  let bytes : Bytes := (List.range 16).map fun i =>
    if i = 6 then marked 0x40 0x0F (octet i)
    else if i = 8 then marked 0x80 0x3F (octet i)
    else octet i
  let part (first count : Nat) : List Char := ((bytes.drop first).take count).flatMap octetChars
  String.ofList (part 0 4 ++ '-' :: part 4 2 ++ '-' :: part 6 2 ++ '-' :: part 8 2
    ++ '-' :: part 10 6)

example : ofOctets (fun _ => 0xFF) = "ffffffff-ffff-4fff-bfff-ffffffffffff" := by
  decide +kernel

end Harvest.Identifier
