import ProductLine.Anomaly.Report
import ProductLine.Diagnosis.Enumeration
import ProductLine.Workbench.Consistency

/-! # The analyzer

An `Analyzer` has a workbench and assembles a report. Its `Analysis` steps share what the probes are
made of: features are perturbed, the perturbed model is checked, and what is inconsistent is
diagnosed and recorded with all its explanations. -/

namespace ProductLine
namespace Anomaly

/-- How an analysis is to be done. -/
structure Config where
  solver : Oracle.Settings
  limits : Diagnosis.Limits
  /-- Whether constraints declared last are the first candidates of a diagnosis. -/
  recentFirst : Bool
  order : FeatureOrder
  checkDead : Bool
  checkConditionallyDead : Bool
  checkFullMandatory : Bool
  checkFalseOptional : Bool
  checkRedundancy : Bool
deriving Repr

/-- Everything is checked, with at most a hundred diagnoses for each finding. -/
def Config.standard : Config :=
  ⟨Oracle.Settings.standard, Diagnosis.Limits.standard, true, .declared, true, true, true, true,
    true⟩

/-- A workbench, the way the analysis is done, the limits of its enumerations, the report so far,
and whether the features carry the tags of a finished search for dead ones. -/
structure Analyzer where
  bench : Workbench
  config : Config
  limits : Diagnosis.Limits
  report : Report
  deadChecked : Bool

abbrev Analysis := EStateM Failure Analyzer

/-- An analyzer of a model of which nothing is made yet. -/
def Analyzer.new (m : FeatureModel) (config : Config) (w : World) : Analyzer :=
  ⟨Workbench.new m config.solver w, config, config.limits, Report.new m.name, false⟩

namespace Analysis

/-- Work on the analyzer's workbench. -/
def onBench {α : Type} (work : Work α) : Analysis α := fun a =>
  match work a.bench with
  | .ok x b => .ok x { a with bench := b }
  | .error e b => .error e { a with bench := b }

def note (n : Journal.Note) : Analysis Unit := onBench (Work.note n)

def model : Analysis FeatureModel := return (← get).bench.model

/-- Makes the constraint store and an empty report. -/
def start : Analysis Unit := do
  onBench (Work.build (← get).config.order)
  let m ← model
  modify fun a => { a with report := Report.new m.name, deadChecked := false }

/-- The features but the root, in visiting order. -/
def nonRoot : Analysis (List Feature) := do
  let m ← model
  orFail (m.nonRoot (← get).config.order)

/-- What diagnoses need of the workbench. -/
def setting : Diagnosis.Setting Workbench := ⟨Work.isConsistent, Work.note, Work.readClock⟩

/-- The constraints of the relationships as candidates of a diagnosis. -/
def candidates (recentFirst : Bool) (s : Store) : List Constraint :=
  if recentFirst then s.cf.reverse else s.cf

/-- All diagnoses of candidates over a background, up to the limits. -/
def diagnose (limits : Diagnosis.Limits) (candidates background : List Constraint) :
    Work Diagnosis.Enumeration := do
  let first ← Diagnosis.first setting candidates background
  let all ← Diagnosis.enumerate setting limits first candidates background
  match all.stopped with
  | some limit => Work.note (.cutShort limit all.diagnoses.length)
  | none => pure ()
  return all

/-- The assignments of features as constraints. -/
def perturbation (assignments : List (String × Bool)) : Work (List Constraint) :=
  assignments.mapM fun (name, value) => Work.assign (.text name) value

/-- Whether no product of the model has the assignments. -/
def infeasible (assignments : List (String × Bool)) : Analysis Bool :=
  onBench do
    let cs ← perturbation assignments
    Work.probe cs fun posted => return !(← Work.isConsistent posted)

/-- All diagnoses of the model with the assignments. -/
def diagnosePerturbation (assignments : List (String × Bool)) : Analysis Diagnosis.Enumeration := do
  let a ← get
  onBench do
    let cs ← perturbation assignments
    Work.probe cs fun _ => do
      let s := (← get).store
      diagnose a.limits (candidates a.config.recentFirst s) s.background

/-- The explanations that diagnoses give: the rules of each, unless there are none or they were
given before. -/
def explanations (diagnoses : List (List Constraint)) : Except Failure (List (List String)) :=
  diagnoses.foldlM (fun found diagnosis => do
    let rules ← Constraint.explain diagnosis
    return if rules.isEmpty || found.contains rules then found else found ++ [rules]) []

/-- Records a finding and, if it is one about a feature, tags the feature. -/
def record (c : Category) (subject : String) (all : Diagnosis.Enumeration)
    (condition : Option String) : Analysis Unit := do
  match c.tag? with
  | some tag => onBench (modify fun b => { b with model := b.model.tag subject tag })
  | none => pure ()
  let diagnoses ← orFail (explanations all.diagnoses)
  let finding : Finding := ⟨c, subject, diagnoses, condition, all.stopped.isSome⟩
  finding.explanations.forM fun line => note (.explained line)
  modify fun a => { a with report := a.report.add finding }

/-- Notes, diagnoses and records a finding about a feature that cannot have the assignments. -/
def report (c : Category) (f : Feature) (assignments : List (String × Bool)) : Analysis Unit := do
  note (.found c f.name)
  let all ← diagnosePerturbation assignments
  record c f.name all none

end Analysis
end Anomaly
end ProductLine
