/-
  Harvest.Json.Fault

  Why a text is refused as JSON, and where. A place is named by the text that is left at
  it, from which line and column are counted once the whole text is known: lines from one,
  columns in octets from the start of the line.
-/
import Harvest.Text.Utf8
import Harvest.Text.Quoted
import Harvest.Json.Text

namespace Harvest.Json

/-! ## Causes -/

/-- What was found where a document has to have something else. -/
inductive Found where
  | null
  | flag (b : Bool)
  | integer (n : Int)
  | real (x : Float)
  | text (s : String)
  | sequence
  | map
  deriving DecidableEq

/-- The words for what was found. -/
def Found.words : Found → String
  | .null => "null"
  | .flag b => "boolean `" ++ (if b then "true" else "false") ++ "`"
  | .integer n => "integer `" ++ String.ofList (Number.integerChars n) ++ "`"
  | .real x => "floating point `" ++ String.ofList (Number.chars (.real x)) ++ "`"
  | .text s => "string " ++ Harvest.Text.quoted s
  | .sequence => "sequence"
  | .map => "map"

/-- How a value departs from the document it has to be. -/
inductive Mismatch where
  | kind (found : Found) (expected : String)
  | value (found : Found) (expected : String)
  | length (found : Nat) (expected : String)
  | missing (field : String)
  | duplicate (field : String)
  | other (words : String)
  deriving DecidableEq

/-- The words for a departure. -/
def Mismatch.message : Mismatch → String
  | .kind found expected => "invalid type: " ++ found.words ++ ", expected " ++ expected
  | .value found expected => "invalid value: " ++ found.words ++ ", expected " ++ expected
  | .length found expected =>
    "invalid length " ++ toString found ++ ", expected " ++ expected
  | .missing field => "missing field `" ++ field ++ "`"
  | .duplicate field => "duplicate field `" ++ field ++ "`"
  | .other words => words

/-- Why a text is refused. -/
inductive Cause where
  | endInValue
  | endInList
  | endInObject
  | endInString
  | valueExpected
  | wordExpected
  | colonExpected
  | listCommaExpected
  | objectCommaExpected
  | trailingComma
  | trailingCharacters
  | nameExpected
  | invalidNumber
  | numberOutOfRange
  | invalidEscape
  | loneSurrogate
  | endInEscape
  | controlCharacter
  | tooDeep
  | mismatch (m : Mismatch)
  deriving DecidableEq

/-- The words for a cause. -/
def Cause.message : Cause → String
  | .endInValue => "EOF while parsing a value"
  | .endInList => "EOF while parsing a list"
  | .endInObject => "EOF while parsing an object"
  | .endInString => "EOF while parsing a string"
  | .valueExpected => "expected value"
  | .wordExpected => "expected ident"
  | .colonExpected => "expected `:`"
  | .listCommaExpected => "expected `,` or `]`"
  | .objectCommaExpected => "expected `,` or `\x7d`"
  | .trailingComma => "trailing comma"
  | .trailingCharacters => "trailing characters"
  | .nameExpected => "key must be a string"
  | .invalidNumber => "invalid number"
  | .numberOutOfRange => "number out of range"
  | .invalidEscape => "invalid escape"
  | .loneSurrogate => "lone leading surrogate in hex escape"
  | .endInEscape => "unexpected end of hex escape"
  | .controlCharacter => "control character (\\u0000-\\u001F) found while parsing a string"
  | .tooDeep => "recursion limit exceeded"
  | .mismatch m => m.message

/-! ## Places -/

/-- A cause and its place: `ahead` octets past the start of the text that is left. -/
structure Fault where
  cause : Cause
  rest : List Char
  ahead : Nat
  deriving DecidableEq

/-- A fault at the start of the text that is left. -/
def Fault.here (cause : Cause) (rest : List Char) : Fault := ⟨cause, rest, 0⟩

/-- A fault one octet past the start of the text that is left. -/
def Fault.next (cause : Cause) (rest : List Char) : Fault := ⟨cause, rest, 1⟩

/-- A line, counted from one, and a column, counted in octets from zero. -/
structure Place where
  line : Nat
  column : Nat
  deriving DecidableEq, Repr

/-- The place behind a text that begins at a place. -/
def Place.after (p : Place) : List Char → Place
  | [] => p
  | c :: cs =>
    after (if c = '\n' then ⟨p.line + 1, 0⟩ else ⟨p.line, p.column + c.utf8Size⟩) cs

/-- The place `n` octets into a text that begins at a place, or its end if it is shorter. -/
def Place.into (p : Place) : Nat → List Char → Place
  | 0, _ => p
  | _, [] => p
  | n + 1, c :: cs =>
    if c.utf8Size ≤ n + 1 then
      into (if c = '\n' then ⟨p.line + 1, 0⟩ else ⟨p.line, p.column + c.utf8Size⟩)
        (n + 1 - c.utf8Size) cs
    else ⟨p.line, p.column + (n + 1)⟩

/-- The place of a fault in the text in which it was found. -/
def Fault.place (f : Fault) (text : List Char) : Place :=
  let read := text.take (text.length - f.rest.length)
  (Place.after ⟨1, 0⟩ read).into f.ahead f.rest

/-- A cause with the place at which it was found. -/
structure Refusal where
  cause : Cause
  place : Place
  deriving DecidableEq

/-- The fault, with its place in a text. -/
def Fault.located (f : Fault) (text : List Char) : Refusal := ⟨f.cause, f.place text⟩

/-- The words for a refusal. -/
def Refusal.message (r : Refusal) : String :=
  r.cause.message ++ " at line " ++ toString r.place.line ++ " column "
    ++ toString r.place.column

end Harvest.Json
