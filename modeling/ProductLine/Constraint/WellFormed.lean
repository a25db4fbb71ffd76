import ProductLine.FeatureModel.Basic

/-! # Well-formed models

Which models can be turned into constraints, said without any constraint: a model needs a feature,
its relationships may name features only, and its groups must not be empty. `Failure.IsStructural`
tells the failures that say so of a model from all others. -/

namespace ProductLine

/-- Both sides of the relationship are given by texts. -/
structure Relationship.Textual (r : Relationship) : Prop where
  left : ∃ s, r.left = .text s
  right : ∃ names : List String, r.right = names.map .text

/-- Both sides of the relationship name features only, and a group has at least one feature on the
right. -/
structure Relationship.WellFormed (features : List String) (r : Relationship) : Prop where
  left : ∃ name ∈ features, r.left = .text name
  right : ∀ v ∈ r.right, ∃ name ∈ features, v = .text name
  group : r.kind.isGroup = true → r.right ≠ []

namespace FeatureModel

/-- All names in relationships are given by texts. -/
def Textual (m : FeatureModel) : Prop := ∀ r ∈ m.relationships, r.Textual

/-- There is a feature, and the relationships are well-formed. -/
structure WellFormed (m : FeatureModel) : Prop where
  features : m.features ≠ []
  relationships : ∀ r ∈ m.relationships, r.WellFormed m.names

end FeatureModel

/-- Whether the failure says that a model is not well-formed, or that a relationship stands on the
wrong side of it. -/
def Failure.IsStructural : Failure → Prop
  | .noFeatures | .undeclared _ _ | .emptyGroup _ | .misplacedConstraint _
  | .misplacedRelationship _ => True
  | _ => False

end ProductLine
