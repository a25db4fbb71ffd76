import ProductLine.FeatureModel.Basic

/-! # Categories of anomalies

What an analysis can find: the whole model is void, something is wrong with a feature, or a
constraint is redundant. Findings about features also tag them. -/

namespace ProductLine
namespace Anomaly

/-- The categories of findings, in the order of reports. -/
inductive Category where
  | void
  | dead
  | falseOptional
  | conditionallyDead
  | fullMandatory
  | redundant
deriving DecidableEq, Repr

namespace Category

def all : List Category :=
  [.void, .dead, .falseOptional, .conditionallyDead, .fullMandatory, .redundant]

def name : Category → String
  | .void => "void feature model"
  | .dead => "dead feature"
  | .falseOptional => "false optional feature"
  | .conditionallyDead => "conditionally dead feature"
  | .fullMandatory => "full mandatory feature"
  | .redundant => "redundant constraint"

def ofName? (s : String) : Option Category := all.find? (·.name == s)

def title : Category → String
  | .void => "Void feature model"
  | .dead => "Dead feature"
  | .falseOptional => "False optional feature"
  | .conditionallyDead => "Conditionally dead feature"
  | .fullMandatory => "Full mandatory feature"
  | .redundant => "Redundant constraint"

/-- The tag that a finding puts on its feature. -/
def tag? : Category → Option Feature.Anomaly
  | .void => none
  | .dead => some .dead
  | .falseOptional => some .falseOptional
  | .conditionallyDead => some .conditionallyDead
  | .fullMandatory => some .fullMandatory
  | .redundant => none

theorem mem_all (c : Category) : c ∈ all := by cases c <;> decide

end Category
end Anomaly
end ProductLine
