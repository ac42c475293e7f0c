/-
  Harvest.Command.Address

  Socket addresses: an internet address of version 4 or 6 with the number of a socket.
  An address of version 6 is written in brackets, with its longest run of zeros left out.
-/
import Harvest.Number.Range

namespace Harvest.Command

/-- A socket address. -/
inductive Address where
  | v4 (octets : List Nat) (portNumber : Nat)
  | v6 (groups : List Nat) (scope portNumber : Nat)
  deriving DecidableEq, Repr

namespace Address

/-! ## Reading -/

/-- A reader of a part at the front of a text, which may not be there. -/
abbrev Scan (α : Type) := List Char → Option (α × List Char)

/-- The value of a digit in a base up to sixteen. -/
def digit? (base : Nat) (c : Char) : Option Nat :=
  let d :=
    if '0' ≤ c ∧ c ≤ '9' then c.toNat - 48
    else if 'a' ≤ c ∧ c ≤ 'f' then c.toNat - 87
    else if 'A' ≤ c ∧ c ≤ 'F' then c.toNat - 55
    else base
  if d < base then some d else none

/-- The digits at the front of a text. -/
def takeDigits (base : Nat) : List Char → List Nat × List Char
  | [] => ([], [])
  | c :: cs =>
    match digit? base c with
    | none => ([], c :: cs)
    | some d =>
      let (ds, rest) := takeDigits base cs
      (d :: ds, rest)

/-- Reads a number of at least one and at most `width` digits, which is below a limit. -/
def scanNumber (base width limit : Nat) (zeros : Bool) : Scan Nat := fun cs =>
  let (ds, rest) := takeDigits base cs
  let n := ds.foldl (fun n d => n * base + d) 0
  if ds.isEmpty || width < ds.length || limit ≤ n then none
  else if !zeros && ds.head? == some 0 && 1 < ds.length then none
  else some (n, rest)

/-- Reads one fixed character. -/
def scanChar (expected : Char) : Scan Unit
  | [] => none
  | c :: cs => if c = expected then some ((), cs) else none

/-- Reads an address of version 4. -/
def scanV4 : Scan (List Nat) := fun cs => do
  let octet := scanNumber 10 3 256 false
  let (a, cs) ← octet cs
  let ((), cs) ← scanChar '.' cs
  let (b, cs) ← octet cs
  let ((), cs) ← scanChar '.' cs
  let (c, cs) ← octet cs
  let ((), cs) ← scanChar '.' cs
  let (d, cs) ← octet cs
  return ([a, b, c, d], cs)

/-- The two groups of an address of version 4. -/
def groupsOfV4 : List Nat → List Nat
  | [a, b, c, d] => [a * 256 + b, c * 256 + d]
  | _ => []

/-- Reads at most `limit` groups with colons between them, the last two of which may be an
    address of version 4, and tells whether they are. -/
def takeGroups : Nat → Bool → List Char → List Nat × Bool × List Char
  | 0, _, cs => ([], false, cs)
  | limit + 1, first, cs =>
    let behind : Option (List Char) := if first then some cs else (scanChar ':' cs).map Prod.snd
    match behind with
    | none => ([], false, cs)
    | some inside =>
      -- An address of version 4 takes the place of two groups.
      match (if limit = 0 then none else scanV4 inside) with
      | some (octets, rest) => (groupsOfV4 octets, true, rest)
      | none =>
        match scanNumber 16 4 65536 true inside with
        | none => ([], false, cs)
        | some (g, rest) =>
          let (gs, embedded, rest) := takeGroups limit false rest
          (g :: gs, embedded, rest)

/-- Reads an address of version 6. Two colons stand for at least one group of zeros. -/
def scanV6 : Scan (List Nat) := fun cs =>
  let (head, embedded, cs) := takeGroups 8 true cs
  -- Two colons stand for one group at least, so eight groups leave no room for them.
  if head.length = 8 then some (head, cs)
  else if embedded then none
  else do
    let ((), cs) ← scanChar ':' cs
    let ((), cs) ← scanChar ':' cs
    let (tail, _, cs) := takeGroups (7 - head.length) true cs
    return (head ++ List.replicate (8 - head.length - tail.length) 0 ++ tail, cs)

/-- Reads the number of a socket, behind the colon in front of it. -/
def scanPortNumber : Scan Nat := fun cs => do
  let ((), cs) ← scanChar ':' cs
  scanNumber 10 cs.length 65536 true cs

/-- Reads the scope of an address of version 6, which may be missing. -/
def scanScope (cs : List Char) : Nat × List Char :=
  let scope : Option (Nat × List Char) := do
    let ((), rest) ← scanChar '%' cs
    scanNumber 10 rest.length (Number.greatestUnsigned32 + 1) true rest
  scope.getD (0, cs)

/-- Reads a socket address of version 4. -/
def scanSocketV4 : Scan Address := fun cs => do
  let (octets, cs) ← scanV4 cs
  let (portNumber, cs) ← scanPortNumber cs
  return (.v4 octets portNumber, cs)

/-- Reads a socket address of version 6. -/
def scanSocketV6 : Scan Address := fun cs => do
  let ((), cs) ← scanChar '[' cs
  let (groups, cs) ← scanV6 cs
  let (scope, cs) := scanScope cs
  let ((), cs) ← scanChar ']' cs
  let (portNumber, cs) ← scanPortNumber cs
  return (.v6 groups scope portNumber, cs)

/-- The socket address of a whole text. -/
def ofText? (s : String) : Option Address :=
  match (scanSocketV4 s.toList).or (scanSocketV6 s.toList) with
  | some (a, []) => some a
  | _ => none

/-! ## Writing -/

/-- The text of an address of version 4. -/
def textV4 (octets : List Nat) : String := String.intercalate "." (octets.map toString)

/-- The number of zeros in front. -/
def leadingZeros : List Nat → Nat
  | 0 :: rest => leadingZeros rest + 1
  | _ => 0

/-- Where the longest run of zeros is, the first of those of one length, and its length. -/
def longestZeros : List Nat → Nat × Nat
  | [] => (0, 0)
  | g :: gs =>
    let here := leadingZeros (g :: gs)
    let (place, length) := longestZeros gs
    -- Of two runs of one length the one in front is taken.
    if 0 < here ∧ length ≤ here then (0, here) else (place + 1, length)

/-- The text of a number in base sixteen. -/
def hexText (n : Nat) : String := String.ofList (Nat.toDigits 16 n)

/-- The text of several groups. -/
def textGroups (groups : List Nat) : String := String.intercalate ":" (groups.map hexText)

/-- The text of an address of version 6. One that stands for an address of version 4 shows
    it. -/
def textV6 (groups : List Nat) : String :=
  match groups with
  | [0, 0, 0, 0, 0, 0xFFFF, a, b] => "::ffff:" ++ textV4 [a / 256, a % 256, b / 256, b % 256]
  | groups =>
    let (place, length) := longestZeros groups
    if 1 < length then
      textGroups (groups.take place) ++ "::" ++ textGroups (groups.drop (place + length))
    else textGroups groups

/-- The text of a socket address. -/
def text : Address → String
  | .v4 octets portNumber => textV4 octets ++ ":" ++ toString portNumber
  | .v6 groups scope portNumber =>
    "[" ++ textV6 groups ++ (if scope = 0 then "" else "%" ++ toString scope) ++ "]:"
      ++ toString portNumber

example : (ofText? "127.0.0.1:9090").map text = some "127.0.0.1:9090" := by decide +kernel
example : (ofText? "[2001:DB8:0:0:1::]:080").map text = some "[2001:db8:0:0:1::]:80" := by
  decide +kernel
example : ofText? "127.0.0.1:65536" = none := by decide +kernel

end Address
end Harvest.Command
