/-! # Blank characters

`Text.isBlank` holds of the characters that count as white space in a name: the Unicode characters
with the white space property together with the four information separators. A zero-width space and
a byte order mark are not among them. `Text.Blank` names the texts that hold nothing else,
`Text.trim` cuts blanks off both ends. -/

namespace ProductLine
namespace Text

/-- White space, the line and information separators included. -/
def isBlank (c : Char) : Bool :=
  let n := c.toNat
  (9 ≤ n && n ≤ 13) || (28 ≤ n && n ≤ 32) || n == 0x85 || n == 0xA0 || n == 0x1680 ||
    (0x2000 ≤ n && n ≤ 0x200A) || n == 0x2028 || n == 0x2029 || n == 0x202F || n == 0x205F ||
    n == 0x3000

/-- A text without any other character than blanks; the empty text is one. -/
def Blank (s : String) : Prop := s.toList.all isBlank = true

instance (s : String) : Decidable (Blank s) := inferInstanceAs (Decidable (_ = true))

/-- The text without the characters of a class at its ends. -/
def trim (cls : Char → Bool) (cs : List Char) : List Char :=
  ((cs.dropWhile cls).reverse.dropWhile cls).reverse

theorem blank_empty : Blank "" := by decide

end Text
end ProductLine
