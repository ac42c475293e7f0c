/-
  Harvest.Feed

  Streams that are drawn one value at a time. Drawing may look at the world and change it,
  and the world may change in other ways between two draws. Every stream ends.
-/

namespace Harvest

/-- What drawing from a stream gives: the world after it, and unless the stream has ended a
    value and the stream that goes on. -/
inductive Draw (σ α : Type) where
  | stop (world : σ)
  | item (value : α) (world : σ) (rest : σ → Draw σ α)

/-- A stream, which is drawn from in a world. -/
abbrev Feed (σ α : Type) := σ → Draw σ α

namespace Draw

variable {σ α β : Type}

/-- Changes each value of a stream as it is drawn. -/
def map (f : α → β) : Draw σ α → Draw σ β
  | .stop s => .stop s
  | .item a s rest => .item (f a) s fun s => (rest s).map f

/-- Changes each value of a stream as it is drawn, and leaves some out. -/
def filterMap (f : α → Option β) : Draw σ α → Draw σ β
  | .stop s => .stop s
  | .item a s rest =>
    match f a with
    | none => (rest s).filterMap f
    | some b => .item b s fun s => (rest s).filterMap f

/-- All values of a stream, drawn one directly after the other, and the world after it. -/
def drain : Draw σ α → List α × σ
  | .stop s => ([], s)
  | .item a s rest =>
    let (as, s) := (rest s).drain
    (a :: as, s)

@[simp] theorem drain_stop (s : σ) : (Draw.stop s : Draw σ α).drain = ([], s) := rfl

@[simp] theorem drain_item (a : α) (s : σ) (rest : σ → Draw σ α) :
    (Draw.item a s rest).drain = (a :: (rest s).drain.1, (rest s).drain.2) := rfl

/-- Leaving values out as they are drawn leaves them out of the values. -/
theorem drain_filterMap (f : α → Option β) (d : Draw σ α) :
    (d.filterMap f).drain = (d.drain.1.filterMap f, d.drain.2) := by
  induction d with
  | stop s => rfl
  | item a s rest ih =>
    cases h : f a with
    | none => simp [filterMap, h, ih]
    | some b => simp [filterMap, h, ih]

end Draw

namespace Feed

variable {σ τ α β : Type}

/-- A stream of no values. -/
def empty : Feed σ α := .stop

/-- A stream of given values, which leaves the world alone. -/
def ofList : List α → Feed σ α
  | [] => .stop
  | a :: as => fun s => .item a s (ofList as)

/-- A stream made step by step from a state: a step gives nothing, or a value and the state
    to go on from, if the stream goes on. It ends after `fuel` values at the latest. -/
def unfold (step : τ → σ → Option (α × Option τ) × σ) : Nat → τ → Feed σ α
  | 0, _ => .stop
  | fuel + 1, t => fun s =>
    match step t s with
    | (none, s) => .stop s
    | (some (a, none), s) => .item a s empty
    | (some (a, some t), s) => .item a s (unfold step fuel t)

/-- Changes each value of a stream as it is drawn. -/
def map (f : α → β) (feed : Feed σ α) : Feed σ β := fun s => (feed s).map f

/-- Changes each value of a stream as it is drawn, and leaves some out. -/
def filterMap (f : α → Option β) (feed : Feed σ α) : Feed σ β := fun s => (feed s).filterMap f

@[simp] theorem drain_empty (s : σ) : (empty s : Draw σ α).drain = ([], s) := rfl

@[simp] theorem drain_ofList (as : List α) (s : σ) : (ofList as s).drain = (as, s) := by
  induction as with
  | nil => rfl
  | cons a as ih => simp [ofList, ih]

end Feed
end Harvest
