/-
  Harvest.Json.Record

  Records: objects with named fields, each of a shape of its own. Fields may come in any
  order, a field of no known name is passed over, and a field that is not there is refused
  or stands for a value. A record may also be an array of the values of its fields in the
  order of its layout.
-/
import Harvest.Json.Shape

namespace Harvest.Json

/-- What is made of a field that is not there. -/
inductive Absent (β : Type) where
  /-- The record is refused. -/
  | refused
  /-- The field has a value, but in an array its place has to be there. -/
  | optional (b : β)
  /-- The field has a value. -/
  | fallback (b : β)

/-- The fields of a record in their order. The record is the tuple of their values, and its
    draft the tuple of the values of those fields that are read. -/
inductive Layout : Type → Type → Type 1 where
  | done : Layout Unit Unit
  | field {β γ δ : Type} (name : String) (shape : Shape β) (absent : Absent β)
      (rest : Layout γ δ) : Layout (β × γ) (Option β × δ)

namespace Layout

/-- The number of fields. -/
def size {α δ : Type} : Layout α δ → Nat
  | .done => 0
  | .field _ _ _ rest => rest.size + 1

/-- No field is read. -/
def blank {α δ : Type} : Layout α δ → δ
  | .done => ()
  | .field _ _ _ rest => (none, rest.blank)

/-- The record of the fields that are read. -/
def finish {α δ : Type} : Layout α δ → δ → Except Mismatch α
  | .done, () => .ok ()
  | .field name _ absent rest, (b?, draft) => do
    let b ← match b?, absent with
      | some b, _ => pure b
      | none, .refused => throw (.missing name)
      | none, .optional b => pure b
      | none, .fallback b => pure b
    let c ← rest.finish draft
    return (b, c)

/-- The words for the array that a record may be. -/
def arrayWords {α δ : Type} (l : Layout α δ) (name : String) : String :=
  "struct " ++ name ++ " with " ++ toString l.size
    ++ (if l.size = 1 then " element" else " elements")

/-! ## In a text -/

/-- The text behind a refused object: what follows is not looked at, but its brace. -/
def afterObject (cs : List Char) : List Char :=
  match skipSpace cs with
  | '}' :: cs => cs
  | cs => cs

/-- The text behind a refused array: what follows is not looked at, but its bracket or the
    next comma. -/
def afterArray (cs : List Char) : List Char :=
  match skipSpace cs with
  | ']' :: cs => cs
  | ',' :: cs => skipSpace cs
  | cs => cs

/-- Reads the closing bracket of an array, which must have no more items. -/
def readArrayEnd : Reader Unit := fun cs =>
  match skipSpace cs with
  | [] => .error (.here .endInList [])
  | ']' :: cs => .ok ((), cs)
  | ',' :: cs =>
    match skipSpace cs with
    | ']' :: cs => .error (.next .trailingComma (']' :: cs))
    | cs => .error (.next .trailingCharacters cs)
  | cs => .error (.next .trailingCharacters cs)

/-- Reads a field from behind its name. -/
def readInto {α δ : Type} (levels : Nat) (name : String) : Layout α δ → δ → Reader δ
  -- A field of an unknown name is passed over, whatever its value is.
  | .done, (), cs => do
    let ((), cs) ← readColon cs
    skipValue cs
  | .field known shape _ rest, (b?, draft), cs =>
    if name = known then
      -- The value of the second field is not looked at.
      if b?.isSome then .error (.here (.mismatch (.duplicate known)) (afterObject cs))
      else do
        let ((), cs) ← readColon cs
        let (b, cs) ← shape.read levels cs
        return ((some b, draft), cs)
    else do
      let (draft, cs) ← rest.readInto levels name draft cs
      return ((b?, draft), cs)

/-- Reads the items of an array that stand for the fields from number `index` on. -/
def readItems {α δ : Type} (levels : Nat) (words : String) :
    Layout α δ → (index : Nat) → Reader α
  | .done, _, cs => .ok ((), cs)
  | .field _ shape absent rest, index, cs => do
    let (more, cs) ← readItemStart (index == 0) cs
    let (b, cs) ←
      if more then shape.read levels cs
      else
        -- An array that ends early may only lack fields with a value to fall back on.
        match absent with
        | .fallback b => pure (b, cs)
        | _ => throw (.here (.mismatch (.length index words)) (afterArray cs))
    let (c, cs) ← rest.readItems levels words (index + 1) cs
    return ((b, c), cs)

/-- Reads a record from the opening brace of an object. -/
def readObject {α δ : Type} (l : Layout α δ) : Nat → Reader α :=
  enter fun levels cs => do
    let field := fun name => l.readInto levels name
    let (draft, cs) ← readFields field (cs.length + 1) true l.blank cs
    placed cs (l.finish draft)

/-- Reads a record from the opening bracket of an array. -/
def readArray {α δ : Type} (l : Layout α δ) (name : String) : Nat → Reader α :=
  enter fun levels cs => do
    let (a, cs) ← l.readItems levels (l.arrayWords name) 0 cs
    let ((), cs) ← readArrayEnd cs
    return (a, cs)

/-! ## In memory -/

/-- Takes up a field of an object. -/
def checkInto {α δ : Type} (name : String) (v : Json) :
    Layout α δ → δ → Except Mismatch δ
  | .done, () => .ok ()
  | .field known shape _ rest, (b?, draft) =>
    if name = known then
      if b?.isSome then .error (.duplicate known)
      else do
        let b ← shape.check v
        return (some b, draft)
    else do
      let draft ← rest.checkInto name v draft
      return (b?, draft)

/-- Takes up the fields of an object in their order. -/
def checkFields {α δ : Type} (l : Layout α δ) (fs : Fields) : Except Mismatch α := do
  let draft ← fs.foldlM (fun draft f => l.checkInto f.1 f.2 draft) l.blank
  l.finish draft

/-- Takes the items of an array for the fields from number `index` on. -/
def checkItems {α δ : Type} (words : String) :
    Layout α δ → (index : Nat) → List Json → Except Mismatch (α × List Json)
  | .done, _, vs => .ok ((), vs)
  | .field _ shape absent rest, index, vs => do
    let (b, vs) ← match vs, absent with
      | v :: vs, _ => do
        let b ← shape.check v
        pure (b, vs)
      | [], .fallback b => pure (b, [])
      | [], _ => throw (.length index words)
    let (c, vs) ← rest.checkItems words (index + 1) vs
    return ((b, c), vs)

/-- Takes an array for a record. -/
def checkArray {α δ : Type} (l : Layout α δ) (name : String) (vs : List Json) :
    Except Mismatch α := do
  let (a, rest) ← l.checkItems (l.arrayWords name) 0 vs
  if rest.isEmpty then return a
  else throw (.length vs.length "fewer elements in array")

end Layout

/-- A record, with the name that it has in words. -/
def Shape.record {α δ : Type} (name : String) (l : Layout α δ) : Shape α where
  read levels cs :=
    match skipSpace cs with
    | '{' :: cs => l.readObject levels ('{' :: cs)
    | '[' :: cs => l.readArray name levels ('[' :: cs)
    | cs => readOther ("struct " ++ name) cs
  check
    | .object fs => l.checkFields fs
    | .array vs => l.checkArray name vs
    | v => refuse ("struct " ++ name) v

/-- The value that a whole text is of. -/
def Shape.ofChars {α : Type} (s : Shape α) (text : List Char) : Except Refusal α :=
  readWhole (s.read nestingLimit) text

/-- The value that a whole text is of. -/
def Shape.ofText {α : Type} (s : Shape α) (text : String) : Except Refusal α :=
  s.ofChars text.toList

end Harvest.Json
