/-
  Harvest.Text.Blank

  Blank characters and blank texts: the characters with the Unicode property White_Space,
  which separate the parts of a date and make a line count as empty.
-/

namespace Harvest.Text

/-- The characters with the property White_Space. -/
def isBlank (c : Char) : Bool :=
  let n := c.toNat
  (0x09 ≤ n && n ≤ 0x0D) || n == 0x20 || n == 0x85 || n == 0xA0 || n == 0x1680
    || (0x2000 ≤ n && n ≤ 0x200A) || n == 0x2028 || n == 0x2029 || n == 0x202F
    || n == 0x205F || n == 0x3000

/-- Whether nothing but blanks is in the text. -/
def isBlankText (cs : List Char) : Bool := cs.all isBlank

/-- The text from its first character that is not blank. -/
def trimStart (cs : List Char) : List Char := cs.dropWhile isBlank

/-- The text without the blanks at either end. -/
def trim (cs : List Char) : List Char := (trimStart (trimStart cs).reverse).reverse

end Harvest.Text
