import ProductLine.Relationship.Basic
import ProductLine.Text.Blank

/-! # Feature models

A `FeatureModel` has features, the first of which is the root, the relationships of the feature tree
and the cross-tree constraints. Its features have distinct names that are not blank. An `Edit`
changes a model or fails; of a failing edit only those features stay that were added before the
failure. -/

namespace ProductLine

/-- What an analysis may find about a feature. -/
inductive Feature.Anomaly where
  | dead
  | falseOptional
  | conditionallyDead
  | fullMandatory
deriving DecidableEq, Repr

namespace Feature.Anomaly

/-- The name of an anomaly. -/
def name : Feature.Anomaly → String
  | .dead => "dead"
  | .falseOptional => "false optional"
  | .conditionallyDead => "conditionally dead"
  | .fullMandatory => "full mandatory"

def sorted : List Feature.Anomaly := [.conditionallyDead, .dead, .falseOptional, .fullMandatory]

/-- The anomaly with a name. -/
def ofName? (s : String) : Option Feature.Anomaly := sorted.find? (·.name == s)

end Feature.Anomaly

/-- A feature and the anomalies it is tagged with. -/
structure Feature where
  name : String
  tags : List Feature.Anomaly
deriving DecidableEq, Repr

namespace Feature

def tag (f : Feature) (a : Anomaly) : Feature := if a ∈ f.tags then f else ⟨f.name, f.tags ++ [a]⟩

def tagNames (f : Feature) : List String := (Anomaly.sorted.filter (· ∈ f.tags)).map Anomaly.name

end Feature

/-- The order in which an analysis visits the features. -/
inductive FeatureOrder where
  | declared
  | depthFirst
deriving DecidableEq, Repr

namespace FeatureOrder

/-- The order with a short name. -/
def ofName? (s : String) : Option FeatureOrder :=
  if s = "bf" then some .declared else if s = "df" then some .depthFirst else none

end FeatureOrder

/-- Features, relationships of the tree and cross-tree constraints. The title is held as the model
file gave it. -/
structure FeatureModel where
  title : Value
  features : List Feature
  structural : List Relationship
  crossTree : List Relationship
deriving Repr

namespace FeatureModel

/-- The model with a title and nothing else. -/
def empty (title : Value) : FeatureModel := ⟨title, [], [], []⟩

/-- An operation that may change a model or fail. -/
abbrev Edit := EStateM Failure FeatureModel

variable (m : FeatureModel)

/-- The title, or without one the name of the root. -/
def name : Value := if m.title.given then m.title else .text (m.features.head?.elim "" (·.name))

def root : Except Failure Feature :=
  match m.features with
  | f :: _ => .ok f
  | [] => .error .noRoot

def names : List String := m.features.map (·.name)

/-- The relationships of the tree and then the cross-tree constraints. -/
def relationships : List Relationship := m.structural ++ m.crossTree

def feature? (name : String) : Option Feature := m.features.find? (·.name == name)

/-- The feature that a value names. -/
def lookUp (name : Value) : Except Failure (Option Feature) :=
  match name.key? with
  | none => .error (.notAName name)
  | some (.text s) => .ok (m.feature? s)
  | some _ => .ok none

/-- How many relationships of a kind there are, counted on the side of the model where they belong.
-/
def count (kind : Relationship.Kind) : Nat :=
  ((if kind.isCrossTree then m.crossTree else m.structural).filter (·.kind = kind)).length

/-- Whether the feature is the child of a mandatory relationship. -/
def isMandatory (name : String) : Bool :=
  m.structural.any fun r => decide (r.kind = .mandatory) && r.hasRight name

/-- Whether the feature is the child of an optional relationship or a member of a group. -/
def isOptional (name : String) : Bool :=
  m.structural.any fun r =>
    (decide (r.kind = .optional) && r.hasLeft name) || (r.kind.isGroup && r.hasRight name)

/-- The features that require the feature with this name, in the order of the constraints. -/
def requiring (name : String) : Except Failure (List Feature) := do
  let requiring := m.crossTree.filter fun r => decide (r.kind = .requires) && r.hasRight name
  let found ← requiring.mapM fun r => m.lookUp r.left
  return found.filterMap id

/-! ### Building a model -/

/-- The model with one more feature, if the name is a text that is neither blank nor there already.
-/
def withFeature (name : Value) : Except Failure FeatureModel :=
  if !name.given then .error .blankName else
    match name with
    | .text s =>
      if Text.Blank s then .error .blankName
      else if (m.feature? s).isSome then .error (.repeatedName s)
      else .ok { m with features := m.features ++ [⟨s, []⟩] }
    | _ => .error (.nameNotText name)

def addFeature (name : Value) : Edit Unit := fun m =>
  match m.withFeature name with
  | .ok m' => .ok () m'
  | .error e => .error e m

/-- Adds features one after the other. -/
def addFeatures (names : Value) : Edit Unit :=
  match names.items? with
  | some items => items.forM addFeature
  | none => throw (.notSeveral names)

/-- The right side of a relationship: one text is one feature. -/
def rightSide (right : Value) : Except Failure (List Value) :=
  match right with
  | .text _ => .ok [right]
  | _ =>
    match right.items? with
    | some items => .ok items
    | none => .error (.notSeveral right)

/-- A relationship that takes the next key of the model, if its right side suits its kind. -/
def newRelationship (kind : Relationship.Kind) (left right : Value) :
    Except Failure Relationship := do
  let right ← rightSide right
  if kind.isGroup || right.length = 1 then
    return ⟨some m.relationships.length, kind, left, right⟩
  else throw (.wrongArity kind right)

def addRelationship (kind : Relationship.Kind) (left right : Value) : Edit Relationship := fun m =>
  if kind.isCrossTree then .error (.notStructural kind) m else
    match m.newRelationship kind left right with
    | .ok r => .ok r { m with structural := m.structural ++ [r] }
    | .error e => .error e m

def addConstraint (kind : Relationship.Kind) (left right : Value) : Edit Relationship := fun m =>
  if !kind.isCrossTree then .error (.notCrossTree kind) m else
    match m.newRelationship kind left right with
    | .ok r => .ok r { m with crossTree := m.crossTree ++ [r] }
    | .error e => .error e m

/-- The model with a relationship of any shape at the end of one of its lists, nothing being
checked. -/
def appendUnchecked (acrossTree : Bool) (kind : Relationship.Kind) (left : Value)
    (right : List Value) : FeatureModel :=
  let r : Relationship := ⟨some m.relationships.length, kind, left, right⟩
  if acrossTree then { m with crossTree := m.crossTree ++ [r] }
  else { m with structural := m.structural ++ [r] }

/-! ### Tags -/

def tag (name : String) (a : Feature.Anomaly) : FeatureModel :=
  { m with features := m.features.map fun f => if f.name = name then f.tag a else f }

def hasTag (name : String) (a : Feature.Anomaly) : Bool := (m.feature? name).any (a ∈ ·.tags)

def clearTags : FeatureModel := { m with features := m.features.map fun f => ⟨f.name, []⟩ }

/-- The names and sorted tags of the features. -/
def tags : List (String × List String) := m.features.map fun f => (f.name, f.tagNames)

@[simp] theorem names_tag (name : String) (a : Feature.Anomaly) :
    (m.tag name a).names = m.names := by
  simp only [names, tag, List.map_map]
  refine List.map_congr_left fun f _ => ?_
  simp only [Function.comp_apply, Feature.tag]
  split
  · split <;> rfl
  · rfl

@[simp] theorem names_clearTags : m.clearTags.names = m.names := by
  simp [names, clearTags, Function.comp_def]

end FeatureModel
end ProductLine
