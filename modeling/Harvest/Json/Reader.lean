/-
  Harvest.Json.Reader

  The parts of a JSON text below its values: blanks, words, strings, and what stands
  between the items of an array and the fields of an object. A reader takes its part off
  the front of a text, or tells why and where it cannot.
-/
import Harvest.Json.Fault

namespace Harvest.Json

/-- A reader of a part at the front of a text. -/
abbrev Reader (α : Type) := List Char → Except Fault (α × List Char)

/-- Whether a character is blank between the parts of a JSON text. -/
def isSpace (c : Char) : Bool := c == ' ' || c == '\n' || c == '\t' || c == '\r'

/-- The text from its first character that is not blank. -/
def skipSpace (cs : List Char) : List Char := cs.dropWhile isSpace

/-- Reads the rest of a word, whose first character is read. -/
def readWord : List Char → Reader Unit
  | [], cs => .ok ((), cs)
  | _ :: _, [] => .error (.here .endInValue [])
  | w :: ws, c :: cs =>
    if c = w then readWord ws cs else .error (.next .wordExpected (c :: cs))

/-! ## Strings -/

/-- The value of a hexadecimal digit. -/
def hexDigit? (c : Char) : Option Nat :=
  if '0' ≤ c ∧ c ≤ '9' then some (c.toNat - 48)
  else if 'a' ≤ c ∧ c ≤ 'f' then some (c.toNat - 87)
  else if 'A' ≤ c ∧ c ≤ 'F' then some (c.toNat - 55)
  else none

/-- The value of four hexadecimal digits. -/
def hexValue? (a b c d : Char) : Option Nat :=
  match hexDigit? a, hexDigit? b, hexDigit? c, hexDigit? d with
  | some a, some b, some c, some d => some (((a * 16 + b) * 16 + c) * 16 + d)
  | _, _, _, _ => none

/-- Reads four hexadecimal digits. Where four octets are left and are not such digits, they
    are read all the same. -/
def readHex : Reader Nat := fun cs =>
  -- Characters of several octets may make up the four.
  if Utf8.size (cs.take 4) < 4 then .error (.here .endInString [])
  else
    match cs with
    | a :: b :: c :: d :: rest =>
      match hexValue? a b c d with
      | some n => .ok (n, rest)
      | none => .error ⟨.invalidEscape, cs, 4⟩
    | _ => .error ⟨.invalidEscape, cs, 4⟩

/-- Whether sixteen bits are the first half of a character past U+FFFF. -/
def isLeading (n : Nat) : Bool := 0xD800 ≤ n && n ≤ 0xDBFF

/-- Whether sixteen bits are the second half of a character past U+FFFF. -/
def isTrailing (n : Nat) : Bool := 0xDC00 ≤ n && n ≤ 0xDFFF

/-- The character of two halves. -/
def joinHalves (n m : Nat) : Char :=
  Char.ofNat (0x10000 + (n - 0xD800) * 0x400 + (m - 0xDC00))

/-- Reads one fixed character of the escape of a second half. -/
def readEscapeMark (mark : Char) : Reader Unit
  | [] => .error (.here .endInString [])
  | c :: cs => if c = mark then .ok ((), cs) else .error (.next .endInEscape (c :: cs))

/-- Reads the digits of an escaped character, and all of its second half if it has one. -/
def readUnicode : Reader Char := fun cs => do
  let (n, cs) ← readHex cs
  -- A second half without its first one stands for nothing.
  if isTrailing n then throw (.here .loneSurrogate cs)
  else if isLeading n then
    let ((), cs) ← readEscapeMark '\\' cs
    let ((), cs) ← readEscapeMark 'u' cs
    let (m, cs) ← readHex cs
    if isTrailing m then return (joinHalves n m, cs) else throw (.here .loneSurrogate cs)
  else return (Char.ofNat n, cs)

/-- The character that a letter after a backslash stands for. -/
def escaped? (c : Char) : Option Char :=
  match c with
  | '"' => some '"'
  | '\\' => some '\\'
  | '/' => some '/'
  | 'b' => some '\x08'
  | 'f' => some '\x0c'
  | 'n' => some '\n'
  | 'r' => some '\r'
  | 't' => some '\t'
  | _ => none

/-- Reads what follows a backslash. -/
def readEscape : Reader Char
  | [] => .error (.here .endInString [])
  | c :: cs =>
    match escaped? c with
    | some e => .ok (e, cs)
    | none => if c = 'u' then readUnicode cs else .error (.next .invalidEscape (c :: cs))

/-- Reads a string from behind its opening quote, with what is read of it in reverse. -/
def readStringFrom : Nat → List Char → Reader String
  | 0, _, cs => .error (.here .endInString cs)
  | _ + 1, _, [] => .error (.here .endInString [])
  | fuel + 1, read, c :: cs =>
    if c = '"' then .ok (String.ofList read.reverse, cs)
    else if c = '\\' then do
      let (e, cs) ← readEscape cs
      readStringFrom fuel (e :: read) cs
    else if c.toNat < 0x20 then .error (.next .controlCharacter (c :: cs))
    else readStringFrom fuel (c :: read) cs

/-- Reads a string from behind its opening quote. -/
def readString : Reader String := fun cs => readStringFrom (cs.length + 1) [] cs

/-! ## Between items and fields -/

/-- Whether an array has another item. The text is then that of the item, and otherwise
    that from the closing bracket. -/
def readItemStart (first : Bool) : Reader Bool := fun cs =>
  match skipSpace cs with
  | [] => .error (.here .endInList [])
  | c :: cs =>
    if c = ']' then .ok (false, c :: cs)
    else if first then .ok (true, c :: cs)
    else if c = ',' then
      match skipSpace cs with
      | [] => .error (.here .endInValue [])
      | d :: ds =>
        if d = ']' then .error (.next .trailingComma (d :: ds)) else .ok (true, d :: ds)
    else .error (.next .listCommaExpected (c :: cs))

/-- Reads the name of the next field of an object, or its closing brace. -/
def readName? (first : Bool) : Reader (Option String) := fun cs =>
  match skipSpace cs with
  | [] => .error (.here .endInObject [])
  | c :: cs =>
    if c = '}' then .ok (none, cs)
    else if first then
      if c = '"' then do
        let (name, cs) ← readString cs
        return (some name, cs)
      else .error (.next .nameExpected (c :: cs))
    else if c = ',' then
      match skipSpace cs with
      | [] => .error (.here .endInValue [])
      | d :: ds =>
        if d = '"' then do
          let (name, cs) ← readString ds
          return (some name, cs)
        else if d = '}' then .error (.next .trailingComma (d :: ds))
        else .error (.next .nameExpected (d :: ds))
    else .error (.next .objectCommaExpected (c :: cs))

/-- Reads the colon between the name and the value of a field. -/
def readColon : Reader Unit := fun cs =>
  match skipSpace cs with
  | [] => .error (.here .endInObject [])
  | c :: cs => if c = ':' then .ok ((), cs) else .error (.next .colonExpected (c :: cs))

/-- Reads the items of an array and its closing bracket, from behind its opening one. -/
def readItems {α : Type} (item : Reader α) : Nat → Bool → Reader (List α)
  | 0, _, cs => .error (.here .endInList cs)
  | fuel + 1, first, cs => do
    let (more, cs) ← readItemStart first cs
    if more then
      let (v, cs) ← item cs
      let (vs, cs) ← readItems item fuel false cs
      return (v :: vs, cs)
    -- Only the closing bracket is left to pass over.
    else return ([], cs.drop 1)

/-- Reads the fields of an object and its closing brace, from behind its opening one:
    `field` goes on from behind the name of a field. -/
def readFields {σ : Type} (field : String → σ → Reader σ) : Nat → Bool → σ → Reader σ
  | 0, _, _, cs => .error (.here .endInObject cs)
  | fuel + 1, first, s, cs => do
    let (name?, cs) ← readName? first cs
    match name? with
    | none => return (s, cs)
    | some name =>
      let (s, cs) ← field name s cs
      readFields field fuel false s cs

/-- Reads a whole text, behind which only blanks may stand. -/
def readWhole {α : Type} (part : Reader α) (text : List Char) : Except Refusal α :=
  match part text with
  | .error f => .error (f.located text)
  | .ok (a, rest) =>
    match skipSpace rest with
    | [] => .ok a
    | rest => .error ((Fault.next .trailingCharacters rest).located text)

end Harvest.Json
