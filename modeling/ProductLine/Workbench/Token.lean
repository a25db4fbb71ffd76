import ProductLine.Workbench.Basic

/-! # Tokens

A token that lets a number of checks pass calls the work off at the next one. What is done until then
can be read off the journal: every check leaves one note of what came of it. -/

namespace ProductLine
namespace Journal

/-- What came of the check that a note tells of: the failure of the engine, if it gave no answer. -/
def Note.outcome? : Note → Option (Option Oracle.SolverFailure)
  | .checked .. => some none
  | .solverFailed failure => some (some failure)
  | _ => none

/-- What came of the checks that notes tell of, one after the other. -/
def outcomes (notes : List Note) : List (Option Oracle.SolverFailure) :=
  notes.filterMap Note.outcome?

theorem outcomes_append (notes more : List Note) :
    outcomes (notes ++ more) = outcomes notes ++ outcomes more := List.filterMap_append

theorem outcomes_eq_nil {n : Note} (h : n.outcome? = none) : outcomes [n] = [] :=
  List.filterMap_cons_none h

theorem outcomes_eq_singleton {n : Note} {o : Option Oracle.SolverFailure}
    (h : n.outcome? = some o) : outcomes [n] = [o] := List.filterMap_cons_some h

end Journal

/-- The world with another token, or without one. -/
def World.under (w : World) (token : Option CancelToken) : World := { w with token := token }

theorem World.tick_under (w : World) (token : Option CancelToken) :
    (w.under token).tick = w.tick.under token := by
  unfold tick under
  cases w.lapses <;> rfl

/-- The workbench with another token, or without one. -/
def Workbench.under (b : Workbench) (token : Option CancelToken) : Workbench :=
  { b with world := b.world.under token }

end ProductLine
