import ProductLine.Workbench.Basic

/-! # Scopes

A scope posts other constraints for the time of some work. `Work.swapped` posts exactly the given
constraints and brings back what was posted before; `Work.probe` posts the baseline and a
perturbation, and `Work.retracted` the baseline with a constraint replaced by its opposite, and both
bring back the baseline. They do so however the work ends, for `always` runs its ending after
success and after failure alike. If the work makes another store, there is nothing to bring back,
and the new store stays as it is. -/

namespace ProductLine

/-- The work followed by an ending that also takes place if the work fails. -/
def always {ε σ α : Type} (ending : σ → σ) (work : EStateM ε σ α) : EStateM ε σ α := fun s =>
  match work s with
  | .ok a s => .ok a (ending s)
  | .error e s => .error e (ending s)

namespace Work

variable {α : Type}

/-- Work that is followed by a change of the store, unless it makes another store. -/
def closing (change : Store → Store) (work : Work α) : Work α := do
  let edition := (← get).edition
  always (fun b => if b.edition = edition then { b with store := change b.store } else b) work

/-- Work with exactly the given constraints posted; it is told what is posted. -/
def swapped (cs : List Constraint) (work : List Constraint → Work α) : Work α := do
  let saved := (← get).store.posted
  onStore fun s => s.clear.post cs
  let posted := (← get).store.posted
  closing (fun s => s.clear.post saved) (work posted)

/-- Work with the baseline and a perturbation posted; it is told what is posted. -/
def probe (perturbation : List Constraint) (work : List Constraint → Work α) : Work α := do
  onStore fun s => s.reset.post perturbation
  let posted := (← get).store.posted
  closing Store.reset (work posted)

/-- Work with the baseline posted, but a cross-tree constraint replaced by its opposite; it is told
the opposite. If there is no opposite, the constraint stays taken back. -/
def retracted (r : Relationship) (work : List Constraint → Work α) : Work α := do
  let group := (← get).store.constraintsOf r
  onStore fun s => s.reset.unpost group
  let negation ← negationOf r
  onStore fun s => s.post negation
  closing (fun s => ((s.unpost negation).post group).reset) (work negation)

end Work

end ProductLine
