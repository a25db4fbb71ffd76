import ProductLine.Anomaly.Category
import ProductLine.Diagnosis.Limit
import ProductLine.Oracle.Engine

/-! # The journal

While it works, an analysis notes what it does. A `Note` has a level and a source, and is written as
one line. -/

namespace ProductLine
namespace Journal

/-- How much a note matters. Traces are kept, but no reader asks for them. -/
inductive Level where
  | trace
  | debug
  | info
  | warning
deriving DecidableEq, Repr

namespace Level

def name : Level → String
  | .trace => "TRACE"
  | .debug => "DEBUG"
  | .info => "INFO"
  | .warning => "WARNING"

def rank : Level → Nat
  | .trace => 0
  | .debug => 1
  | .info => 2
  | .warning => 3

/-- The level with a name in small letters. -/
def ofName? : String → Option Level
  | "debug" => some .debug
  | "info" => some .info
  | "warning" => some .warning
  | _ => none

end Level

/-- What the analysis looks for next. -/
inductive Probe where
  | consistency
  | dead
  | conditionallyDead
  | fullMandatory
  | falseOptional
  | redundant
deriving DecidableEq, Repr

namespace Probe

/-- What is looked for. -/
def aim : Probe → String
  | .consistency => "consistency"
  | .dead => "dead features"
  | .conditionallyDead => "conditionally dead features"
  | .fullMandatory => "full mandatory features"
  | .falseOptional => "false optional features"
  | .redundant => "redundant constraints"

end Probe

/-- What is noted. -/
inductive Note where
  /-- The root does not lead to these features. -/
  | unreachable (root : String) (names : List String)
  /-- A constraint store is made. -/
  | storeMade (model : Value) (vars constraints : Nat)
  /-- The engine gave no answer. -/
  | solverFailed (failure : Oracle.SolverFailure)
  /-- The engine answered. -/
  | checked (call constraints : Nat) (answer : Bool)
  /-- A diagnosis of candidates over a background is looked for. -/
  | sought (candidates background : List Constraint)
  /-- There is nothing to diagnose, the background being inconsistent. -/
  | hopeless
  /-- A diagnosis is found. -/
  | diagnosed (size candidates : Nat)
  /-- All diagnoses are found. -/
  | enumerated (count : Nat) (seconds : Int)
  /-- The enumeration stopped at a limit. -/
  | cutShort (limit : Diagnosis.Limit) (count : Nat)
  /-- The analysis of a model begins. -/
  | started (model : Value)
  /-- The analysis is complete. -/
  | finished (seconds : Int) (calls : Nat)
  /-- The model being void, nothing else is looked for. -/
  | skipped
  /-- A probe begins. -/
  | probing (probe : Probe)
  /-- The model has a product. -/
  | consistent
  /-- The model has no product. -/
  | void
  /-- Something is wrong with a feature. -/
  | found (category : Anomaly.Category) (feature : String)
  /-- Two features exclude each other. -/
  | incompatible (feature partner : String)
  /-- A constraint is redundant. -/
  | redundant (rule : String)
  /-- An explanation of a finding. -/
  | explained (line : String)
  /-- The report is written to a file. -/
  | reportSaved (path : String)
  /-- The table of explanations is written to a file. -/
  | tableSaved (path : String)

/-- Whole seconds with two places behind the point. -/
def duration (seconds : Int) : String := toString seconds ++ ".00s"

namespace Note

def level : Note → Level
  | sought .. => .trace
  | unreachable .. | solverFailed .. | cutShort .. => .warning
  | checked .. | hopeless | diagnosed .. | enumerated .. => .debug
  | _ => .info

/-- Which part of the program a note comes from. -/
def source : Note → String
  | unreachable .. | storeMade .. => "constraint_store"
  | solverFailed .. | checked .. => "consistency_oracle"
  | sought .. | hopeless | diagnosed .. => "fastdiag"
  | enumerated .. => "diagnosis_enumerator"
  | reportSaved .. | tableSaved .. => "analyze_feature_model"
  | _ => "anomaly_analysis"

def text : Note → String
  | unreachable root names =>
    "Features not reachable from the root " ++ root ++ ": " ++ (Value.list (names.map .text)).quoted
  | storeMade model vars constraints =>
    "Constraint store for '" ++ model.display ++ "': " ++ toString vars ++ " variables, " ++
      toString constraints ++ " constraints in CF"
  | solverFailed failure =>
    "Solver failure (" ++ failure.mishap.reason ++ ") on " ++ toString failure.constraints ++
      " constraints: " ++
      failure.mishap.message ++ ". Treating the set as inconsistent."
  | checked call constraints answer =>
    "Oracle call " ++ toString call ++ ": " ++ toString constraints ++ " constraints -> " ++
      if answer then "consistent" else "inconsistent"
  | sought candidates background =>
    "FastDiag: " ++ toString candidates.length ++ " candidates over " ++
      toString background.length ++ " constraints"
  | hopeless => "Background knowledge is inconsistent on its own, no diagnosis"
  | diagnosed size candidates =>
    "FastDiag: diagnosis of size " ++ toString size ++ " out of " ++ toString candidates ++
      " candidates"
  | enumerated count seconds =>
    "Enumerated " ++ toString count ++ " diagnoses in " ++ duration seconds
  | cutShort limit count =>
    limit.message ++ "; keeping the " ++ toString count ++ " diagnoses found so far"
  | started model => "=== Analyzing feature model '" ++ model.display ++ "' ==="
  | finished seconds calls =>
    "=== Analysis complete in " ++ duration seconds ++ ", " ++ toString calls ++
      " consistency checks ==="
  | skipped => "Void feature model, skipping the remaining probes"
  | probing probe => "Checking " ++ probe.aim
  | consistent => "Consistency: ok"
  | void => "X Void feature model"
  | found category feature => "X " ++ category.title ++ ": " ++ feature
  | incompatible feature partner => feature ++ " and " ++ partner ++ " cannot be selected together"
  | redundant rule => "X Redundant constraint: " ++ rule
  | explained line => "\t" ++ line
  | reportSaved path => "Report saved to: " ++ path
  | tableSaved path => "Explanations saved to: " ++ path

def line (n : Note) : String := n.level.name ++ " " ++ n.source ++ ": " ++ n.text

end Note

/-- The lines of the notes that matter at least so much. -/
def lines (least : Level) (notes : Array Note) : List String :=
  (notes.toList.filter fun n => least.rank ≤ n.level.rank).map Note.line

end Journal
end ProductLine
