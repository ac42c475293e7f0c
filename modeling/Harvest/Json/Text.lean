/-
  Harvest.Json.Text

  The text of a JSON value, without blanks: fields in their order, and of the characters
  of a string only the quote, the backslash and the controls escaped.
-/
import Harvest.Json.Value
import Harvest.Number.Shortest
import Harvest.Text.Utf8

namespace Harvest

/-- Numbers are written in full when the exponent of their first digit is -5 to 15, and
    otherwise with an exponent that always has its sign. -/
def Number.style : Harvest.Number.Style := ⟨-5, 15, true⟩

/-- The text of a whole number. -/
def Number.integerChars (n : Int) : List Char :=
  if n < 0 then '-' :: Nat.toDigits 10 n.natAbs else Nat.toDigits 10 n.toNat

/-- The text of a number; one that is not finite is written `null`. -/
def Number.chars : Number → List Char
  | .integer n => Number.integerChars n
  | .real x => (Harvest.Number.floatText? Number.style x).getD ['n', 'u', 'l', 'l']

namespace Json

/-- How a character is written inside a string. -/
def escapeChar (c : Char) : List Char :=
  match c with
  | '"' => ['\\', '"']
  | '\\' => ['\\', '\\']
  | '\x08' => ['\\', 'b']
  | '\t' => ['\\', 't']
  | '\n' => ['\\', 'n']
  | '\x0c' => ['\\', 'f']
  | '\r' => ['\\', 'r']
  | c =>
    if c.toNat < 0x20 then
      ['\\', 'u', '0', '0', Nat.digitChar (c.toNat / 16), Nat.digitChar (c.toNat % 16)]
    else [c]

/-- The text of a string. -/
def stringChars (s : String) : List Char := '"' :: s.toList.flatMap escapeChar ++ ['"']

mutual

/-- The text of a value. -/
def chars : Json → List Char
  | .null => ['n', 'u', 'l', 'l']
  | .bool true => ['t', 'r', 'u', 'e']
  | .bool false => ['f', 'a', 'l', 's', 'e']
  | .number n => n.chars
  | .string s => stringChars s
  | .array items => '[' :: itemChars items ++ [']']
  | .object fields => '{' :: fieldChars fields ++ ['}']

/-- The texts of the items of an array, with commas between them. -/
def itemChars : List Json → List Char
  | [] => []
  | [v] => chars v
  | v :: vs => chars v ++ ',' :: itemChars vs

/-- The texts of the fields of an object, with commas between them. -/
def fieldChars : List (String × Json) → List Char
  | [] => []
  | [(k, v)] => stringChars k ++ ':' :: chars v
  | (k, v) :: rest => stringChars k ++ ':' :: chars v ++ ',' :: fieldChars rest

end

/-- The text of a value. -/
def text (v : Json) : String := String.ofList v.chars

/-- The text of a value in UTF-8. -/
def bytes (v : Json) : Bytes := Utf8.encode v.chars

/-! ## On several lines -/

/-- A new line with an indentation of two blanks for each level. -/
def lineBreak (level : Nat) : List Char := '\n' :: List.replicate (2 * level) ' '

mutual

/-- The text of a value with every item and field on its own line. -/
def prettyChars (level : Nat) : Json → List Char
  | .array [] => ['[', ']']
  | .array items =>
    '[' :: prettyItems (level + 1) items ++ lineBreak level ++ [']']
  | .object [] => ['{', '}']
  | .object fields =>
    '{' :: prettyFields (level + 1) fields ++ lineBreak level ++ ['}']
  | v => chars v

/-- The texts of the items of an array, each on its own line. -/
def prettyItems (level : Nat) : List Json → List Char
  | [] => []
  | [v] => lineBreak level ++ prettyChars level v
  | v :: vs => lineBreak level ++ prettyChars level v ++ ',' :: prettyItems level vs

/-- The texts of the fields of an object, each on its own line. -/
def prettyFields (level : Nat) : List (String × Json) → List Char
  | [] => []
  | [(k, v)] => lineBreak level ++ stringChars k ++ ':' :: ' ' :: prettyChars level v
  | (k, v) :: rest =>
    lineBreak level ++ stringChars k ++ ':' :: ' ' :: prettyChars level v
      ++ ',' :: prettyFields level rest

end

/-- The text of a value with every item and field on its own line. -/
def pretty (v : Json) : String := String.ofList (prettyChars 0 v)

example : text (.object [("a", .array [.null, ofInt (-1), ofFloat 1])])
    = "\x7b\"a\":[null,-1,1.0]\x7d" := by decide +kernel

end Json
end Harvest
