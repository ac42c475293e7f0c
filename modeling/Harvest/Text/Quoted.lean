/-
  Harvest.Text.Quoted

  Texts shown in quotes, for messages that name a value exactly: the quote and the
  backslash are escaped, and every character that does not show by itself is written as an
  escape.
-/
import Harvest.Text.Combining

namespace Harvest.Text

/-- The digits of a number in base sixteen, in lower case and without leading zeros. -/
def hexDigits (n : Nat) : List Char := Nat.toDigits 16 n

/-- How a character is shown inside quotes. -/
def quoteChar (c : Char) : List Char :=
  match c with
  | '"' => ['\\', '"']
  | '\\' => ['\\', '\\']
  | '\n' => ['\\', 'n']
  | '\t' => ['\\', 't']
  | '\r' => ['\\', 'r']
  | '\x00' => ['\\', '0']
  | c =>
    if isPrintable c && !isCombining c then [c]
    else ['\\', 'u', '\x7b'] ++ hexDigits c.toNat ++ ['\x7d']

/-- A text in quotes. -/
def quoted (s : String) : String :=
  String.ofList ('"' :: s.toList.flatMap quoteChar ++ ['"'])

/-- A list of texts in quotes, in square brackets. -/
def quotedList (ss : List String) : String :=
  "[" ++ String.intercalate ", " (ss.map quoted) ++ "]"

example : quoted "it\"em\n" = "\"it\\\"em\\n\"" := by decide +kernel

/-- A filler is escaped: it is a letter, but shows nothing. -/
example : quoted "\u3164" = "\"\\u\x7b3164\x7d\"" := by decide +kernel

end Harvest.Text
