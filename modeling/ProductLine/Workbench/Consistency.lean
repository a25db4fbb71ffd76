import ProductLine.Workbench.Scope

/-! # Consistency checks

`Work.isConsistent` asks the engine whether constraints can hold together. The answer is no also
when the engine gives none; such failures are recorded and noted. No constraints at all are
consistent, and the engine is not asked then. Before every check the caller may call off the
analysis. -/

namespace ProductLine
namespace Work

/-- Sets the token after a check, and fails if that did not pass. -/
def passing (token : CancelToken) : Work Unit := do
  modify fun b => { b with world := { b.world with token := some token } }
  if token.cancelled then throw .cancelled else pure ()

/-- Fails if the analysis is called off. -/
def passToken : Work Unit := do
  match (← get).world.token with
  | none => pure ()
  | some token => passing token.check

/-- Counts a call of the engine and gives the fault that hits it. -/
def countCall : Work (Option Oracle.Fault) := do
  modify fun b =>
    { b with calls := b.calls + 1, world := { b.world with calls := b.world.calls + 1 } }
  let w := (← get).world
  return w.faults.lookup w.calls

/-- Records that the engine gave no answer. -/
def recordFailure (failure : Oracle.SolverFailure) : Work Unit := do
  modify fun b => { b with failures := b.failures ++ [failure] }
  note (.solverFailed failure)

/-- Takes the engine's answer about so many constraints; none counts as no. -/
def takeAnswer (constraints : Nat) : Except Oracle.Mishap Bool → Work Bool
  | .error mishap => do
    recordFailure ⟨mishap, constraints⟩
    return false
  | .ok answer => do
    note (.checked (← get).calls constraints answer)
    return answer

/-- Asks the engine about constraints that are posted. -/
def consult (posted : List Constraint) : Work Bool :=
  if posted.isEmpty then return true
  else do
    let fault ← countCall
    let settings := (← get).settings
    takeAnswer posted.length (Oracle.solve settings fault posted)

/-- Whether constraints can hold together, as far as the engine can tell. -/
def isConsistent (cs : List Constraint) : Work Bool := do
  passToken
  swapped cs consult

end Work
end ProductLine
