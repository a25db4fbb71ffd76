import ProductLine.Constraint.WellFormed

/-! # Malformed relationships

Relationships that were put into a model without any check may be malformed. A store is made by looking
at less than that: `Relationship.Accepted` says which relationships are turned into constraints, and
`FeatureModel.Stumbles` in which models one is come across whose right side is looked into although it is
empty. -/

namespace ProductLine
namespace Relationship

variable (acrossTree : Bool) (features : List String) (r : Relationship)

/-- On this side of a model the relationship is malformed: it belongs to the other side, it is not
well-formed, or it is no group and has not exactly one feature on the right. -/
def Malformed : Prop :=
  r.kind.isCrossTree ≠ acrossTree ∨ ¬r.WellFormed features ∨
    r.kind.isGroup = false ∧ r.right.length ≠ 1

/-- What has to be a feature on the right: in the tree everything, across the tree what comes first. -/
def lookedUp : List Value := if acrossTree then r.right.take 1 else r.right

/-- On this side of a model the relationship is turned into constraints. -/
structure Accepted : Prop where
  side : r.kind.isCrossTree = acrossTree
  left : ∃ name ∈ features, r.left = .text name
  right : ∀ v ∈ r.lookedUp acrossTree, ∃ name ∈ features, v = .text name
  given : r.right ≠ []

/-- The right side is empty and is looked into, be it for the rule by which to report the relationship.
The rule of a group does without, so that a group has to be reached with nothing to report. -/
structure Bare : Prop where
  empty : r.right = []
  reached : r.kind.isGroup = true → acrossTree = true ∧ ∃ name ∈ features, r.left = .text name

end Relationship

namespace FeatureModel

variable (m : FeatureModel)

/-- The relationships in the order in which they are turned into constraints, each with its side. -/
def placed : List (Bool × Relationship) := m.structural.map (false, ·) ++ m.crossTree.map (true, ·)

/-- Some relationship is malformed where it stands. -/
def Malformed : Prop := ∃ x ∈ m.placed, x.2.Malformed x.1 m.names

/-- All relationships are turned into constraints. -/
def Accepted : Prop := ∀ x ∈ m.placed, x.2.Accepted x.1 m.names

/-- The first relationship that is not turned into constraints, and its side. -/
def Refuses (x : Bool × Relationship) : Prop :=
  ∃ before after, m.placed = before ++ x :: after ∧
    (∀ y ∈ before, y.2.Accepted y.1 m.names) ∧ ¬x.2.Accepted x.1 m.names

/-- Some optional relationship has no parent, which the tree looks for before anything is turned into
constraints, or the first relationship that is not turned into constraints is bare. -/
def Stumbles : Prop :=
  (∃ r ∈ m.structural, r.kind = .optional ∧ r.right = []) ∨
    ∃ x, m.Refuses x ∧ x.2.Bare x.1 m.names

end FeatureModel
end ProductLine
