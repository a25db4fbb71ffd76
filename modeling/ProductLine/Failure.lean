import ProductLine.Relationship.Kind
import ProductLine.Text.UpperCase
import ProductLine.Value.Display

/-! # Failures

`Failure` lists what can go wrong between a model file and a finished analysis, by cause;
`Failure.message` words it for the user. -/

namespace ProductLine

/-- Why an operation on a model, its constraints or its analysis failed. -/
inductive Failure where
  /-- A value that cannot be gone through was given where several were expected. -/
  | notSeveral (given : Value)
  /-- A list or an object was given as a name. -/
  | notAName (given : Value)
  /-- A group's rule cannot be written, because a feature of its right side is not given by a text.
  -/
  | ruleNotText
  /-- A relationship of a model file is not an object. -/
  | entryNotObject (entry : Value)
  /-- A feature name is given, but not as a text. -/
  | nameNotText (given : Value)
  /-- A model file does not hold an object. -/
  | notAnObject (given : Value)
  /-- There is no feature with this name to be tagged. -/
  | noSuchFeature (name : String)
  /-- A relationship of a model file lacks a member. -/
  | missingMember (name : String)
  /-- A bound of an enumeration is not a number. -/
  | notANumber (given : Value)
  /-- A relationship has no feature on its right side. -/
  | noRightSide
  /-- There is no relationship at this place. -/
  | noSuchRelationship (index : Int)
  /-- Null was given as one end of a tree edge. -/
  | nullNode
  /-- A feature name is empty or has blanks only. -/
  | blankName
  /-- A feature name is there already. -/
  | repeatedName (name : String)
  /-- A cross-tree kind was given for a relationship of the tree. -/
  | notStructural (kind : Relationship.Kind)
  /-- A kind of the tree was given for a cross-tree constraint. -/
  | notCrossTree (kind : Relationship.Kind)
  /-- A relationship that is no group has not exactly one feature on the right. -/
  | wrongArity (kind : Relationship.Kind) (right : List Value)
  /-- A relationship of a model file is of no known kind. -/
  | unknownKind (entry : Value)
  /-- The root of a model without features was asked for. -/
  | noRoot
  /-- A model without features was to be turned into constraints. -/
  | noFeatures
  /-- A relationship names a feature that the model does not have. -/
  | undeclared (name : Value) (rule : String)
  /-- A group has no feature on its right side. -/
  | emptyGroup (rule : String)
  /-- A cross-tree constraint stands among the relationships of the tree. -/
  | misplacedConstraint (rule : String)
  /-- A relationship of the tree stands among the cross-tree constraints. -/
  | misplacedRelationship (rule : String)
  /-- A feature has no variable in the constraint store of the model. -/
  | noVariable (name : Value) (model : Value)
  /-- A relationship of the tree was to be negated. -/
  | notNegatable (rule : String)
  /-- An enumeration took more seconds than a floating-point number can tell. -/
  | clockOverrun
  /-- The caller called the analysis off. -/
  | cancelled
  /-- The caller left a scope with a failure of its own. -/
  | raised (message : String)
deriving Repr

namespace Failure

def message : Failure → String
  | .notSeveral given => "Expected several values, got " ++ given.quoted
  | .notAName given => "Expected a name, got " ++ given.quoted
  | .ruleNotText => "A group has a feature that is not given by a text"
  | .entryNotObject entry => "Expected a relationship, got " ++ entry.quoted
  | .nameNotText given => "Expected a feature name, got " ++ given.quoted
  | .notAnObject given => "Expected a feature model, got " ++ given.quoted
  | .noSuchFeature name => "There is no feature " ++ name
  | .missingMember name => "A relationship has no member " ++ name
  | .notANumber given => "Expected a number, got " ++ given.quoted
  | .noRightSide => "A relationship has no right-side feature"
  | .noSuchRelationship index => "There is no relationship " ++ toString index
  | .nullNode => "None cannot be a node"
  | .blankName => "The feature name can't be blank."
  | .repeatedName name =>
    "The feature name " ++ Text.upperCase name ++ " is used many times in the feature model. " ++
      "The feature name must be unique."
  | .notStructural kind => kind.name ++ " is not a structural relationship type."
  | .notCrossTree kind => kind.name ++ " is not a cross-tree constraint type."
  | .wrongArity kind right =>
    "A " ++ kind.name ++ " relationship takes exactly one right-side feature, got " ++
      (Value.list right).quoted
  | .unknownKind entry => "Unknown relationship type in " ++ entry.display
  | .noRoot => "The feature model has no features."
  | .noFeatures => "The feature model has no features."
  | .undeclared name rule =>
    "The feature " ++ name.display ++ " does not exist in the feature model in " ++ rule ++ "!"
  | .emptyGroup rule => rule ++ " has no right-side features."
  | .misplacedConstraint rule => rule ++ " is not a structural relationship."
  | .misplacedRelationship rule => rule ++ " is not a cross-tree constraint."
  | .noVariable name model =>
    "The feature " ++ name.display ++ " has no variable in the constraint store of '" ++
      model.display ++ "'"
  | .notNegatable rule => "Only cross-tree constraints can be negated, got " ++ rule
  | .clockOverrun => "The enumeration took too long for its seconds to be told"
  | .cancelled => "Analysis cancelled by the caller"
  | .raised message => message

end Failure

/-- Takes over a result or fails with it. -/
def orFail {σ α : Type} : Except Failure α → EStateM Failure σ α
  | .ok a => pure a
  | .error e => throw e

end ProductLine
