import ProductLine.FeatureModel.Basic

/-! # Models with an index of names

A `Register` holds a model and, apart from the list of its features, an index that tells at which place
the feature of a name stands. What is added is written in steps: first everything is checked, then the
lists and the index are changed one after the other. A step that fails leaves what was written before.
`Register.run` makes calls one after the other, those that fail included. -/

namespace ProductLine

/-- A model and the places of its features by their names, the last entry first. -/
structure Register where
  model : FeatureModel
  index : List (String × Nat)
deriving Repr

/-- An operation that may change a register or fail. -/
abbrev Registering := EStateM Failure Register

namespace Register

/-- The register of a model with a title and nothing else. -/
def empty (title : Value) : Register := ⟨.empty title, []⟩

/-- The feature that the index has under a name. -/
def feature? (r : Register) (name : String) : Option Feature :=
  (r.index.lookup name).bind fun place => r.model.features[place]?

/-- A feature name that is given as a text and not blank. -/
def readName (name : Value) : Except Failure String :=
  if !name.given then .error .blankName else
    match name with
    | .text s => if Text.Blank s then .error .blankName else .ok s
    | _ => .error (.nameNotText name)

/-- Puts a feature at the end of the list. -/
def append (s : String) : Registering Unit :=
  modify fun r => { r with model := { r.model with features := r.model.features ++ [⟨s, []⟩] } }

/-- Enters the last feature of the list into the index. -/
def enter (s : String) : Registering Unit :=
  modify fun r => { r with index := (s, r.model.features.length - 1) :: r.index }

def checkNew (r : Register) (s : String) : Except Failure Unit :=
  if (r.index.lookup s).isSome then .error (.repeatedName s) else .ok ()

/-- Adds a feature, unless the index has its name. -/
def addFeature (name : Value) : Registering Unit := do
  let s ← orFail (readName name)
  orFail (checkNew (← get) s)
  append s
  enter s

def addFeatures (names : Value) : Registering Unit :=
  match names.items? with
  | some items => items.forM addFeature
  | none => throw (.notSeveral names)

/-- Fails if a kind of relationship does not belong to a side of the model. -/
def checkSide (acrossTree : Bool) (kind : Relationship.Kind) : Except Failure Unit :=
  if kind.isCrossTree = acrossTree then .ok ()
  else .error (if acrossTree then .notCrossTree kind else .notStructural kind)

/-- Puts a relationship at the end of one of the lists. -/
def write (acrossTree : Bool) (r : Relationship) : Registering Unit :=
  modify fun s => { s with model :=
    if acrossTree then { s.model with crossTree := s.model.crossTree ++ [r] }
    else { s.model with structural := s.model.structural ++ [r] } }

/-- Adds a relationship of the tree or a cross-tree constraint. -/
def add (acrossTree : Bool) (kind : Relationship.Kind) (left right : Value) :
    Registering Relationship := do
  orFail (checkSide acrossTree kind)
  let r ← orFail ((← get).model.newRelationship kind left right)
  write acrossTree r
  return r

/-- What can be added to a model, with whatever values are given. -/
inductive Call where
  | feature (name : Value)
  | features (names : Value)
  | relationship (kind : Relationship.Kind) (left right : Value)
  | constraint (kind : Relationship.Kind) (left right : Value)

namespace Call

/-- A call on a register. -/
def perform : Call → Registering Unit
  | feature name => addFeature name
  | features names => addFeatures names
  | relationship kind left right => discard (add false kind left right)
  | constraint kind left right => discard (add true kind left right)

/-- A call on a model. -/
def edit : Call → FeatureModel.Edit Unit
  | feature name => FeatureModel.addFeature name
  | features names => FeatureModel.addFeatures names
  | relationship kind left right => discard (FeatureModel.addRelationship kind left right)
  | constraint kind left right => discard (FeatureModel.addConstraint kind left right)

/-- The register that a call leaves, whether it succeeds or fails. -/
def leaves (call : Call) (r : Register) : Register :=
  match call.perform r with
  | .ok _ r => r
  | .error _ r => r

end Call

/-- The register after some calls, whichever of them fail. -/
def run (calls : List Call) (r : Register) : Register := calls.foldl (fun r call => call.leaves r) r

end Register
end ProductLine
