import ProductLine.FeatureModel.Basic

/-! # Models as text

`FeatureModel.text` lists the features and rules of a model line by line; `FeatureModel.countsLine`
counts its relationships by kind. -/

namespace ProductLine
namespace FeatureModel

variable (m : FeatureModel)

/-- The rules of relationships, each on an indented line. -/
def ruleLines (relationships : List Relationship) : Except Failure (List String) :=
  relationships.mapM fun r => do return "\t" ++ (← r.rule)

/-- The features, relationships and constraints of a model; a model without features has no text. -/
def text : Except Failure String := do
  if m.features.isEmpty then return ""
  let structural ← ruleLines m.structural
  let crossTree ← ruleLines m.crossTree
  return "\n".intercalate
    ("FEATURES:" :: m.names.map ("\t" ++ ·) ++ "RELATIONSHIPS:" :: structural ++
      "CONSTRAINTS:" :: crossTree)

/-- The number of relationships of every kind. -/
def countsLine : String :=
  ", ".intercalate (Relationship.Kind.all.map fun kind =>
    kind.name ++ ": " ++ toString (m.count kind))

end FeatureModel
end ProductLine
