/-! # Kinds of relationships

A relationship of a feature model is of one of six kinds. Mandatory, optional, alternative and or
relationships span the feature tree; requires and excludes constraints go across it. Alternative and
or relationships are groups: their right side holds any number of features, that of the others
exactly one. -/

namespace ProductLine
namespace Relationship

/-- The kinds of relationships, in the order of their counts. -/
inductive Kind where
  | mandatory
  | optional
  | alternative
  | or
  | requires
  | excludes
deriving DecidableEq, Repr

namespace Kind

def all : List Kind := [.mandatory, .optional, .alternative, .or, .requires, .excludes]

def name : Kind → String
  | .mandatory => "mandatory"
  | .optional => "optional"
  | .alternative => "alternative"
  | .or => "or"
  | .requires => "requires"
  | .excludes => "excludes"

def ofName? (s : String) : Option Kind := all.find? (·.name == s)

def isCrossTree : Kind → Bool
  | .requires | .excludes => true
  | _ => false

/-- Whether relationships of the kind have any number of features on the right. -/
def isGroup : Kind → Bool
  | .alternative | .or => true
  | _ => false

theorem mem_all (k : Kind) : k ∈ all := by cases k <;> decide

@[simp] theorem ofName?_name (k : Kind) : ofName? k.name = some k := by cases k <;> decide

end Kind
end Relationship
end ProductLine
