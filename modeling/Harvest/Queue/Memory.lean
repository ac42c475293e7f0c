/-
  Harvest.Queue.Memory

  Queues in memory, and one that refuses pushes by their number.
-/
import Harvest.Lookup
import Harvest.Queue.Basic

namespace Harvest

/-- The payloads of queues by name. -/
structure Memory where
  queues : List (String × List Bytes)
  deriving DecidableEq

namespace Memory

/-- No payloads. -/
def empty : Memory := ⟨[]⟩

/-- The payloads of a queue in order. -/
def items (m : Memory) (name : String) : List Bytes := (m.queues.lookup name).getD []

/-- The number of payloads of a queue. -/
def size (m : Memory) (name : String) : Nat := (m.items name).length

/-- Appends a payload to one of several queues. -/
def pushInto (name : String) (payload : Bytes) :
    List (String × List Bytes) → List (String × List Bytes)
  | [] => [(name, [payload])]
  | (k, ps) :: rest =>
    if name = k then (k, ps ++ [payload]) :: rest else (k, ps) :: pushInto name payload rest

/-- Appends a payload to a queue. -/
def push (m : Memory) (name : String) (payload : Bytes) : Memory :=
  ⟨pushInto name payload m.queues⟩

@[simp] theorem items_empty (name : String) : empty.items name = [] := rfl

theorem lookup_pushInto (name other : String) (payload : Bytes)
    (queues : List (String × List Bytes)) :
    ((pushInto name payload queues).lookup other).getD [] =
      (queues.lookup other).getD [] ++ if other = name then [payload] else [] := by
  induction queues with
  | nil => by_cases h : other = name <;> simp [pushInto, lookup_cons_ite, h]
  | cons e rest ih =>
    obtain ⟨k, ps⟩ := e
    by_cases hk : name = k
    · subst hk
      by_cases h : other = name <;> simp [pushInto, lookup_cons_ite, h]
    · by_cases h : other = k
      · subst h
        have : other ≠ name := fun e => hk e.symm
        simp [pushInto, hk, this]
      · simp [pushInto, lookup_cons_ite, hk, h, ih]

/-- A push appends to its own queue and leaves the others. -/
theorem items_push (m : Memory) (name other : String) (payload : Bytes) :
    (m.push name payload).items other =
      m.items other ++ if other = name then [payload] else [] :=
  lookup_pushInto name other payload m.queues

end Memory

namespace Queue

/-- The queues in memory. -/
def memory : Queue Memory where
  push name payload s := (.ok (), { s with own := s.own.push name payload })

/-- A memory that counts the pushes, those that were refused too. -/
structure Counted where
  memory : Memory
  pushes : Nat

/-- No payloads and no pushes. -/
def Counted.empty : Counted := ⟨.empty, 0⟩

/-- The queues in memory, of which pushes of given numbers are refused. -/
def refusing (refusals : List (Nat × QueueError)) : Queue Counted where
  push name payload s :=
    let pushes := s.own.pushes + 1
    match refusals.lookup s.own.pushes with
    | some e => (.error e, { s with own := { s.own with pushes } })
    | none => (.ok (), { s with own := ⟨s.own.memory.push name payload, pushes⟩ })

end Queue
end Harvest
