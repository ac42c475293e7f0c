/-
  Harvest.Json.Read

  Reading a JSON value. Arrays and objects nest up to a limit. Of the fields of an object
  with the same name the last one counts, and the fields are put in order of their names.
-/
import Harvest.Json.Numeral

namespace Harvest.Json

/-- How many levels deep the arrays and objects of a text may nest. -/
def nestingLimit : Nat := 127

/-- Refuses an array or object that nests too deep. -/
def refuseDeep {α : Type} : Reader α := fun cs => .error (.next .tooDeep cs)

/-- Reads the field of an object from behind its name. -/
def readFieldInto (value : Reader Json) (name : String) (fields : Fields) : Reader Fields :=
  fun cs => do
    let ((), cs) ← readColon cs
    let (v, cs) ← value cs
    return (fields.insert name v, cs)

/-- Reads an array from its opening bracket. -/
def readArray (item : Reader Json) : Reader Json := fun cs => do
  let (items, cs) ← readItems item cs.length true (cs.drop 1)
  return (.array items, cs)

/-- Reads an object from its opening brace. -/
def readObject (value : Reader Json) : Reader Json := fun cs => do
  let (fields, cs) ← readFields (readFieldInto value) cs.length true [] (cs.drop 1)
  return (.object fields, cs)

/-- Reads a value by its first character, given how arrays and objects are read. -/
def readBy (array object : Reader Json) : Reader Json := fun cs =>
  match skipSpace cs with
  | [] => .error (.here .endInValue [])
  | c :: cs =>
    if c = 'n' then do
      let ((), cs) ← readWord ['u', 'l', 'l'] cs
      return (.null, cs)
    else if c = 't' then do
      let ((), cs) ← readWord ['r', 'u', 'e'] cs
      return (.bool true, cs)
    else if c = 'f' then do
      let ((), cs) ← readWord ['a', 'l', 's', 'e'] cs
      return (.bool false, cs)
    else if c = '"' then do
      let (s, cs) ← readString cs
      return (.string s, cs)
    else if c = '[' then array (c :: cs)
    else if c = '{' then object (c :: cs)
    else if c = '-' ∨ c.isDigit then do
      let (n, cs) ← readNumber (c :: cs)
      return (.number n, cs)
    else .error (.next .valueExpected (c :: cs))

/-- Reads a value whose arrays and objects nest up to so many levels. -/
def readValue : Nat → Reader Json
  | 0 => readBy refuseDeep refuseDeep
  | levels + 1 => readBy (readArray (readValue levels)) (readObject (readValue levels))

/-- The value of a text. -/
def ofChars (text : List Char) : Except Refusal Json := readWhole (readValue nestingLimit) text

/-- The value of a text. -/
def ofText (text : String) : Except Refusal Json := ofChars text.toList

end Harvest.Json
