import ProductLine.FeatureModel.Basic

/-! # Model files

`FeatureModel.ofValue` reads a model from the object of a model file, `FeatureModel.toValue` writes
it. The kind of a relationship may be given in letters of any case, the right side as one text, as a
list or as an object whose member names count; written are the canonical name of the kind and a
list. -/

namespace ProductLine
namespace FeatureModel

/-- The kind of a relationship of a model file. Only ASCII letters are folded, since no other letter
has a lower-case form among the letters of the names. -/
def kindOf (entry : Value) (members : List (String × Value)) : Except Failure Relationship.Kind :=
  match (Value.member? "type" members).bind fun v =>
      Relationship.Kind.ofName? (String.ofList (v.display.toList.map Char.toLower)) with
  | some kind => .ok kind
  | none => .error (.unknownKind entry)

/-- A member that a relationship of a model file must have. -/
def requiredMember (name : String) (members : List (String × Value)) : Except Failure Value :=
  match Value.member? name members with
  | some v => .ok v
  | none => .error (.missingMember name)

/-- Adds a relationship of a model file by one of the two ways of adding. -/
def addEntry (add : Relationship.Kind → Value → Value → Edit Relationship) (entry : Value) :
    Edit Unit := do
  match entry with
  | .object members =>
    let kind ← MonadExcept.ofExcept (kindOf entry members)
    let left ← MonadExcept.ofExcept (requiredMember "left" members)
    let right ← MonadExcept.ofExcept (requiredMember "right" members)
    discard (add kind left right)
  | _ => throw (.entryNotObject entry)

/-- Adds the relationships of a model file one after the other. -/
def addEntries (add : Relationship.Kind → Value → Value → Edit Relationship) (entries : Value) :
    Edit Unit :=
  match entries.items? with
  | some items => items.forM (addEntry add)
  | none => throw (.notSeveral entries)

/-- Adds all that the object of a model file holds. -/
def addMembers (members : List (String × Value)) : Edit Unit := do
  addFeatures ((Value.member? "features" members).getD (.list []))
  addEntries addRelationship ((Value.member? "relationships" members).getD (.list []))
  addEntries addConstraint ((Value.member? "constraints" members).getD (.list []))

def ofValue (data : Value) : Except Failure FeatureModel :=
  match data with
  | .object members =>
    match addMembers members (empty ((Value.member? "name" members).getD .null)) with
    | .ok () m => .ok m
    | .error e _ => .error e
  | _ => .error (.notAnObject data)

def relationshipValue (r : Relationship) : Value :=
  .object [("type", .text r.kind.name), ("left", r.left), ("right", .list r.right)]

def toValue (m : FeatureModel) : Value :=
  .object [("name", m.name), ("features", .list (m.names.map .text)),
    ("relationships", .list (m.structural.map relationshipValue)),
    ("constraints", .list (m.crossTree.map relationshipValue))]

end FeatureModel
end ProductLine
