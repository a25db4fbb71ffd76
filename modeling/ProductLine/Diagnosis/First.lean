import ProductLine.Diagnosis.Bisection
import ProductLine.Journal

/-! # The first diagnosis

A *diagnosis* is a part of the candidates without which the other candidates and the background are
consistent. `Diagnosis.first` finds one by divide and conquer, asking about whole halves of the
candidates at once. It sees consistency only through a `Setting`, in which every check may fail or
change the state. With exact answers the diagnosis is a minimal one; which of them it is hangs on
the order of the candidates, so that order is kept throughout. -/

namespace ProductLine
namespace Diagnosis

/-- Where a search for diagnoses takes place: how constraints are checked, where notes go, and what
the clock says. -/
structure Setting (σ : Type) where
  isConsistent : List Constraint → EStateM Failure σ Bool
  note : Journal.Note → EStateM Failure σ Unit
  readClock : EStateM Failure σ Int

variable {σ : Type} (e : Setting σ)

/-- Whether the constraints are consistent now that something was removed from them; if nothing was,
they are not. -/
def settled (removed constraints : List Constraint) : EStateM Failure σ Bool :=
  if removed.isEmpty then pure false else e.isConsistent constraints

/-- The part of the candidates to be removed from the constraints, of which the candidates are a
part. The second half is searched with the first one removed, then the first half with what that
gave. -/
def within :
    Bisection Constraint → List Constraint → List Constraint → EStateM Failure σ (List Constraint)
  | .one c, removed, constraints => do
    let done ← settled e removed constraints
    return if done then [] else [c]
  | .halves left right, removed, constraints => do
    let done ← settled e removed constraints
    if done then return []
    else
      let inRight ← within right left.toList (Constraint.subtract constraints left.toList)
      let inLeft ← within left inRight (Constraint.subtract constraints inRight)
      return Constraint.union inRight inLeft

/-- A diagnosis of candidates, the first of which is given on its own, over a background with which
they are inconsistent. It is empty if the background is inconsistent already. -/
def ofConflict (c : Constraint) (rest background everything : List Constraint) :
    EStateM Failure σ (List Constraint) := do
  let possible ← e.isConsistent background
  if possible then
    let diagnosis ← within e (Bisection.ofList c rest) [] everything
    e.note (.diagnosed diagnosis.length (rest.length + 1))
    return diagnosis
  else
    e.note .hopeless
    return []

/-- A diagnosis of the candidates over a background. It is empty if there is nothing to explain: no
candidate, no inconsistency, or a background that is inconsistent on its own. -/
def first (candidates background : List Constraint) : EStateM Failure σ (List Constraint) := do
  e.note (.sought candidates background)
  match candidates with
  | [] => return []
  | c :: rest =>
    let everything := Constraint.union background candidates
    let consistent ← e.isConsistent everything
    if consistent then return [] else ofConflict e c rest background everything

end Diagnosis
end ProductLine
