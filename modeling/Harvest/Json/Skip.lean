/-
  Harvest.Json.Skip

  Passing over a value that nothing is kept of. The form of the value is checked, but not
  whether its numbers are in range, whether its escapes are characters, nor how deep it
  nests. In an object a comma calls for another field.
-/
import Harvest.Json.Numeral

namespace Harvest.Json

/-- Passes over what follows a backslash. -/
def skipEscape : Reader Unit
  | [] => .error (.here .endInString [])
  | c :: cs =>
    if (escaped? c).isSome then .ok ((), cs)
    else if c = 'u' then do
      let (_, cs) ← readHex cs
      return ((), cs)
    else .error (.next .invalidEscape (c :: cs))

/-- Passes over a string from behind its opening quote. -/
def skipStringFrom : Nat → Reader Unit
  | 0, cs => .error (.here .endInString cs)
  | _ + 1, [] => .error (.here .endInString [])
  | fuel + 1, c :: cs =>
    if c = '"' then .ok ((), cs)
    else if c = '\\' then do
      let ((), cs) ← skipEscape cs
      skipStringFrom fuel cs
    else if c.toNat < 0x20 then .error (.here .controlCharacter (c :: cs))
    else skipStringFrom fuel cs

/-- Passes over a string from behind its opening quote. -/
def skipString : Reader Unit := fun cs => skipStringFrom (cs.length + 1) cs

/-- Passes over an exponent from behind its `e`. -/
def skipExponent : Reader Unit := fun cs =>
  let rest := (takeSign cs).2
  if startsWithDigit rest then .ok ((), rest.dropWhile Char.isDigit)
  else .error (.next .invalidNumber rest)

/-- Passes over an exponent, if there is one. -/
def skipExponent? : Reader Unit
  | 'e' :: cs => skipExponent cs
  | 'E' :: cs => skipExponent cs
  | cs => .ok ((), cs)

/-- Passes over a fraction and an exponent, if they are there. -/
def skipTail : Reader Unit
  | '.' :: cs =>
    if startsWithDigit cs then skipExponent? (cs.dropWhile Char.isDigit)
    else .error (.next .invalidNumber cs)
  | cs => skipExponent? cs

/-- Passes over a number from behind its sign. -/
def skipMagnitude : Reader Unit
  | '0' :: cs => if startsWithDigit cs then .error (.next .invalidNumber cs) else skipTail cs
  | cs =>
    if startsWithDigit cs then skipTail (cs.dropWhile Char.isDigit)
    else .error (.next .invalidNumber cs)

/-- Passes over the name of a field and its colon. -/
def skipName : Reader Unit := fun cs =>
  match skipSpace cs with
  | [] => .error (.here .endInObject [])
  | c :: cs =>
    if c = '"' then do
      let ((), cs) ← skipString cs
      readColon cs
    else .error (.next .nameExpected (c :: cs))

/-- Passes over the items of an array and its closing bracket, or over the fields of an
    object and its closing brace. -/
def skipParts (close : Char) (ended missing : Cause) (part : Reader Unit) :
    Nat → Bool → Reader Unit
  | 0, _, cs => .error (.here ended cs)
  | fuel + 1, first, cs =>
    match skipSpace cs with
    | [] => .error (.here ended [])
    | c :: cs =>
      if c = close then .ok ((), cs)
      else if first then do
        let ((), cs) ← part (c :: cs)
        skipParts close ended missing part fuel false cs
      -- A comma before the closing bracket is met as a part that is missing.
      else if c = ',' then do
        let ((), cs) ← part cs
        skipParts close ended missing part fuel false cs
      else .error (.next missing (c :: cs))

/-- Passes over the items of an array from behind its opening bracket. -/
def skipItems (value : Reader Unit) : Reader Unit := fun cs =>
  skipParts ']' .endInList .listCommaExpected value (cs.length + 1) true cs

/-- Passes over the fields of an object from behind its opening brace. -/
def skipFields (value : Reader Unit) : Reader Unit := fun cs =>
  let field : Reader Unit := fun cs => do
    let ((), cs) ← skipName cs
    value cs
  skipParts '}' .endInObject .objectCommaExpected field (cs.length + 1) true cs

/-- Passes over a value by its first character, given how the parts of arrays and objects
    are passed over. -/
def skipBy (items fields : Reader Unit) : Reader Unit := fun cs =>
  match skipSpace cs with
  | [] => .error (.here .endInValue [])
  | c :: cs =>
    if c = 'n' then readWord ['u', 'l', 'l'] cs
    else if c = 't' then readWord ['r', 'u', 'e'] cs
    else if c = 'f' then readWord ['a', 'l', 's', 'e'] cs
    else if c = '"' then skipString cs
    else if c = '[' then items cs
    else if c = '{' then fields cs
    else if c = '-' then skipMagnitude cs
    else if c.isDigit then skipMagnitude (c :: cs)
    else .error (.next .valueExpected (c :: cs))

/-- Passes over a value that nests up to so many levels. -/
def skipLevels : Nat → Reader Unit
  | 0 => fun cs => .error (.here .endInValue cs)
  | levels + 1 => skipBy (skipItems (skipLevels levels)) (skipFields (skipLevels levels))

/-- Passes over a value. It cannot nest more levels than its text has characters. -/
def skipValue : Reader Unit := fun cs => skipLevels (cs.length + 1) cs

end Harvest.Json
