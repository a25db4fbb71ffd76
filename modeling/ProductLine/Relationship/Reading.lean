import ProductLine.Relationship.Basic

/-! # Reading rules

What can be told of a relationship by its rule. Names may have commas and blanks in them, so that one text
may be the rule of relationships that are no `Twin`s of each other: members of a group may be cut
differently (`Relationship.pieces`), or the left side of the one goes on where the right side of the other
begins (`Relationship.Overlaps`). -/

namespace ProductLine
namespace Relationship

/-- The relationship has texts on both sides, namely these. -/
structure Names (r : Relationship) (left : String) (right : List String) : Prop where
  left : r.left = .text left
  right : r.right = right.map .text

/-- The relationships are of one kind and have the same sides. -/
structure Twin (r s : Relationship) : Prop where
  kind : r.kind = s.kind
  left : r.left = s.left
  right : r.right = s.right

/-- The parts of names between commas. -/
def pieces (names : List String) : List (List Char) := names.flatMap fun name => name.toList.splitOn ','

/-- The one left side is the other one with a comma, a blank and a part after it that the right side of the
other one has in front. -/
def Overlaps (left : String) (right : List String) (left' : String) (right' : List String) : Prop :=
  ∃ part, left' = left ++ ", " ++ part ∧ ",".intercalate right = part ++ ", " ++ ",".intercalate right'

/-- The left side has no comma with a blank after it in it, and the members of a group have no comma. -/
structure Plain (kind : Kind) (left : String) (right : List String) : Prop where
  left : ∀ front back, left ≠ front ++ ", " ++ back
  right : kind.isGroup = true → ∀ name ∈ right, ',' ∉ name.toList

end Relationship
end ProductLine
