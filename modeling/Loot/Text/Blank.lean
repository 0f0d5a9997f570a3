/-!
# Blank characters

Numbers in records may be surrounded by blanks. The blanks are the six ASCII spaces (space, tab,
line feed, vertical tab, form feed, carriage return) and the Unicode space characters from
U+0080 on: U+0085, U+00A0, U+1680, U+2000 to U+200A, U+2028, U+2029, U+202F, U+205F and U+3000.
The ASCII information separators U+001C to U+001F are not blanks here.
-/

namespace Loot.Text

/-- Whether a character is a blank around a number. -/
def isBlank (c : Char) : Bool :=
  let n := c.toNat
  n == 0x20 || (0x09 ≤ n && n ≤ 0x0D) || n == 0x85 || n == 0xA0 || n == 0x1680 ||
    (0x2000 ≤ n && n ≤ 0x200A) || n == 0x2028 || n == 0x2029 || n == 0x202F ||
    n == 0x205F || n == 0x3000

/-- Drops blanks at both ends. -/
def trimBlanks (cs : List Char) : List Char :=
  ((cs.dropWhile isBlank).reverse.dropWhile isBlank).reverse

end Loot.Text
