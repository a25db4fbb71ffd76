/-! # Pieces of a text

`Text.pieces` cuts a text at every occurrence of a mark; there is one piece more than there are
marks (`length_pieces`). `Text.splitLast?` cuts it at the last occurrence only. -/

namespace ProductLine
namespace Text

/-- The parts of a text between occurrences of a mark. -/
def pieces (mark : Char) : List Char → List (List Char)
  | [] => [[]]
  | c :: rest =>
    if c = mark then [] :: pieces mark rest
    else
      match pieces mark rest with
      | first :: others => (c :: first) :: others
      | [] => [[c]]

/-- What comes before the last occurrence of a mark, and what comes after it. -/
def splitLast? (mark : Char) (cs : List Char) : Option (List Char × List Char) :=
  match cs.reverse.span (· != mark) with
  | (back, _ :: front) => some (front.reverse, back.reverse)
  | (_, []) => none

end Text
end ProductLine
