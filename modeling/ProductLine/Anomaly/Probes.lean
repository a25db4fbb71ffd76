import ProductLine.Anomaly.Analyzer

/-! # The probes

An analysis looks for one kind of anomaly after another. `Analysis.run` does so for a model that has
a product at all:

* a feature is *dead* if no product has it;
* a feature is *conditionally dead* if it is optional and some other optional feature never goes
  with it;
* a feature is *full mandatory* if every product has it;
* a feature is *false optional* if it is optional and a mandatory feature requires it;
* a constraint is *redundant* if the others imply it. -/

namespace ProductLine
namespace Anomaly
namespace Analysis

/-- Diagnoses a model that has no product. -/
def diagnoseVoid (a : Analyzer) (posted : List Constraint) :
    Work (Option Diagnosis.Enumeration) := do
  let consistent ← Work.isConsistent posted
  if consistent then
    Work.note .consistent
    return none
  else
    Work.note .void
    let s := (← get).store
    return some (← diagnose a.limits (candidates a.config.recentFirst s) s.background)

/-- Whether the model has a product; if not, that is recorded. -/
def checkConsistency : Analysis Bool := do
  note (.probing .consistency)
  match ← onBench (Work.probe [] (diagnoseVoid (← get))) with
  | none => return true
  | some all =>
    record .void Category.void.name all none
    return false

/-- Records a feature if it cannot have a value. -/
def checkValue (c : Category) (value : Bool) (f : Feature) : Analysis Unit := do
  let found ← infeasible [(f.name, value)]
  if found then report c f [(f.name, value)] else pure ()

def checkDead : Analysis Unit := do
  note (.probing .dead)
  (← nonRoot).forM (checkValue .dead true)
  modify fun a => { a with deadChecked := true }

/-- Whether a feature is dead, by its tag if the dead features have been looked for. -/
def isDead (f : Feature) : Analysis Bool := do
  let a ← get
  if a.deadChecked then return a.bench.model.hasTag f.name .dead else infeasible [(f.name, true)]

/-- All pairs of items of a list, an earlier one first. -/
def pairs {α : Type} : List α → List (α × α)
  | [] => []
  | a :: rest => rest.map (a, ·) ++ pairs rest

/-- Records a feature as conditionally dead unless that has been done. -/
def recordPartner (all : Diagnosis.Enumeration) (reported : List String) (f partner : String) :
    Analysis (List String) :=
  if f ∈ reported then return reported
  else do
    record .conditionallyDead f all (some partner)
    return reported ++ [f]

/-- Checks whether two features can go together, unless both are known to be conditionally dead. -/
def checkPair (reported : List String) (pair : String × String) : Analysis (List String) :=
  if pair.1 ∈ reported ∧ pair.2 ∈ reported then return reported
  else do
    let both := [(pair.1, true), (pair.2, true)]
    let found ← infeasible both
    if found then
      note (.incompatible pair.1 pair.2)
      let all ← diagnosePerturbation both
      let reported ← recordPartner all reported pair.1 pair.2
      recordPartner all reported pair.2 pair.1
    else return reported

/-- The name of a feature if it is optional and not dead. -/
def livingOptional? (f : Feature) : Analysis (Option String) := do
  if (← model).isOptional f.name then
    let dead ← isDead f
    return if dead then none else some f.name
  else return none

/-- The optional features that are not dead. -/
def livingOptional : Analysis (List String) := do
  let found ← (← nonRoot).mapM livingOptional?
  return found.filterMap id

def checkConditionallyDead : Analysis Unit := do
  note (.probing .conditionallyDead)
  discard ((pairs (← livingOptional)).foldlM checkPair [])

def checkFullMandatory : Analysis Unit := do
  note (.probing .fullMandatory)
  (← nonRoot).forM (checkValue .fullMandatory false)

/-- Records an optional feature if the first mandatory feature that requires it cannot go without
it. -/
def checkRequired (f : Feature) : Analysis Unit := do
  let m ← model
  if m.isOptional f.name then
    let requiring ← orFail (m.requiring f.name)
    match requiring.find? fun p => m.isMandatory p.name with
    | none => pure ()
    | some p =>
      let found ← infeasible [(f.name, false), (p.name, true)]
      if found then report .falseOptional f [(f.name, false), (p.name, true)] else pure ()
  else pure ()

def checkFalseOptional : Analysis Unit := do
  note (.probing .falseOptional)
  (← nonRoot).forM checkRequired

/-- Diagnoses a cross-tree constraint that is implied by the others; the candidates are all
constraints but its own. -/
def diagnoseImplied (a : Analyzer) (r : Relationship) :
    Work (Option (String × Diagnosis.Enumeration)) := do
  let consistent ← Work.isConsistent (← get).store.posted
  if consistent then return none
  else
    let rule ← orFail r.rule
    Work.note (.redundant rule)
    let s := (← get).store
    let others := Constraint.subtract (candidates a.config.recentFirst s) (s.constraintsOf r)
    let all ← diagnose a.limits others s.background
    return some (rule, all)

/-- Records a cross-tree constraint if it is redundant. -/
def checkImplied (r : Relationship) : Analysis Unit := do
  let a ← get
  match ← onBench (Work.retracted r fun _ => diagnoseImplied a r) with
  | none => pure ()
  | some (rule, all) => record .redundant rule all none

def checkRedundancies : Analysis Unit := do
  note (.probing .redundant)
  (← model).crossTree.forM checkImplied

/-- A probe that is done only if it is asked for. -/
def ifAsked (asked : Config → Bool) (probe : Analysis Unit) : Analysis Unit := do
  if asked (← get).config then probe else pure ()

/-- Everything an analysis looks for. A void model has nothing else to be found. -/
def probes : Analysis Unit := do
  let consistent ← checkConsistency
  modify fun a => { a with report := { a.report with consistent := consistent } }
  if consistent then
    ifAsked (·.checkDead) checkDead
    ifAsked (·.checkConditionallyDead) checkConditionallyDead
    ifAsked (·.checkFullMandatory) checkFullMandatory
    ifAsked (·.checkFalseOptional) checkFalseOptional
    ifAsked (·.checkRedundancy) checkRedundancies
  else note .skipped

/-- Writes the engine's calls and failures into the report. -/
def takeStock (a : Analyzer) : Analyzer :=
  { a with report := { a.report with calls := a.bench.calls, failures := a.bench.failures } }

/-- Analyses the model from the beginning. The report keeps what was found and counted even if the
analysis is called off. -/
def run : Analysis Report := do
  modify fun a => { a with
    bench := { a.bench with model := a.bench.model.clearTags }
    report := Report.new a.bench.model.name
    deadChecked := false }
  note (.started (← model).name)
  always takeStock probes
  let report := (← get).report
  note (.finished report.elapsed report.calls)
  return (← get).report

end Analysis

/-- The analyzer after a step, whether the step succeeded or failed. -/
def after {α : Type} (step : Analysis α) (a : Analyzer) : Analyzer :=
  match step a with
  | .ok _ a => a
  | .error _ a => a

end Anomaly
end ProductLine
