/-
  Harvest.Command.Flag

  Reading the flags of a command. A flag is written `--name`, and its value behind an equals
  sign or as the next argument. A value that is an argument of its own is read only when
  the next flag begins or the arguments end, so that an unknown argument behind it is
  refused first.
-/
import Harvest.Command.Value

namespace Harvest.Command

/-! ## Arguments -/

/-- What an argument of a command line looks like. -/
inductive Token where
  /-- Two dashes, behind which nothing is a flag. -/
  | dashes
  /-- A flag by its name, with a value behind an equals sign. -/
  | long (name : String) (value : Option String)
  /-- A flag by its letter. -/
  | short (letter : Char)
  | plain (text : String)
  deriving DecidableEq, Repr

/-- What an argument looks like. -/
def Token.ofArgument (text : String) : Token :=
  match text.toList with
  | ['-', '-'] => .dashes
  | '-' :: '-' :: cs =>
    match splitEquals cs with
    | none => .long (String.ofList cs) none
    | some (name, value) => .long (String.ofList name) (some (String.ofList value))
  | '-' :: c :: _ => .short c
  | _ => .plain text

/-! ## Flags -/

/-- What giving a flag does to what is known of a command so far. -/
inductive Effect (σ : Type) where
  /-- The flag has no value. -/
  | mark (set : σ → σ)
  /-- The flag has a value. -/
  | take (read : String → σ → Except Usage σ)

/-- A flag of a command. -/
structure Flag (σ : Type) where
  name : String
  /-- Whether the flag may be given more than once. -/
  repeats : Bool
  effect : Effect σ

/-- A flag that was given and whose value is not yet read, nor perhaps even there. -/
structure Pending (σ : Type) where
  name : String
  repeats : Bool
  read : String → σ → Except Usage σ
  value : Option String

/-- What is known of a command so far, and the flags that were given. -/
structure Progress (σ : Type) where
  draft : σ
  given : List String
  pending : Option (Pending σ)

namespace Progress

variable {σ : Type}

/-- No flag is given yet. -/
def start (draft : σ) : Progress σ := ⟨draft, [], none⟩

/-- Notes that a flag is given, which is refused if that may not be done twice. -/
def note (p : Progress σ) (name : String) (repeats : Bool) : Except Usage (Progress σ) :=
  if !repeats && p.given.contains name then .error .conflict
  else .ok { p with given := name :: p.given }

/-- Notes that a flag is given and reads its value. -/
def take (p : Progress σ) (name : String) (repeats : Bool)
    (read : String → σ → Except Usage σ) (value : String) : Except Usage (Progress σ) := do
  let p ← p.note name repeats
  let draft ← read value p.draft
  return { p with draft }

/-- Reads the value that is not yet read. -/
def settle (p : Progress σ) : Except Usage (Progress σ) :=
  match p.pending with
  | none => .ok p
  | some flag =>
    match flag.value with
    -- The arguments ended, or another flag began, where the value has to be.
    | none => .error .invalidValue
    | some value => { p with pending := none }.take flag.name flag.repeats flag.read value

/-- Takes up a flag. -/
def give (p : Progress σ) (flag : Flag σ) (value : Option String) :
    Except Usage (Progress σ) :=
  match flag.effect, value with
  -- This is told even before the value that is waited for is read.
  | .mark _, some _ => .error .needlessValue
  | .mark set, none => do
    let p ← p.settle
    let p ← p.note flag.name flag.repeats
    return { p with draft := set p.draft }
  | .take read, some value => do
    let p ← p.settle
    p.take flag.name flag.repeats read value
  | .take read, none => do
    let p ← p.settle
    return { p with pending := some ⟨flag.name, flag.repeats, read, none⟩ }

/-- Answers with help, if the value that is not yet read can be read. -/
def giveHelp (p : Progress σ) : Except Usage (Progress σ) := do
  let _ ← p.settle
  throw .help

/-- Takes up an argument that is no flag, which has to be a value that is waited for. -/
def fill (p : Progress σ) (text : String) : Except Usage (Progress σ) :=
  match p.pending with
  | some ⟨name, repeats, read, none⟩ =>
    .ok { p with pending := some ⟨name, repeats, read, some text⟩ }
  | _ => .error .unknownArgument

/-- Takes up an argument. -/
def step (flags : List (Flag σ)) (p : Progress σ) : Token → Except Usage (Progress σ)
  | .dashes => .error .unknownArgument
  | .plain text => p.fill text
  | .short letter => if letter = 'h' then p.giveHelp else .error .unknownArgument
  | .long name value =>
    if name = "help" then
      if value.isSome then .error .needlessValue else p.giveHelp
    else
      match flags.find? fun flag => flag.name == name with
      | some flag => p.give flag value
      | none => .error .unknownArgument

/-- Takes up the arguments of a command. Two dashes may only end them. -/
def read (flags : List (Flag σ)) : Progress σ → List String → Except Usage (Progress σ)
  | p, [] => p.settle
  | p, arg :: args =>
    if Token.ofArgument arg = .dashes then
      -- Behind two dashes no argument is expected.
      if args.isEmpty then p.settle else .error .unknownArgument
    else do
      let p ← p.step flags (.ofArgument arg)
      read flags p args

end Progress

/-- Reads the flags of a command that changes `draft` by them. -/
def readFlags {σ : Type} (flags : List (Flag σ)) (draft : σ) (args : List String) :
    Except Usage σ := do
  let p ← (Progress.start draft).read flags args
  return p.draft

end Harvest.Command
