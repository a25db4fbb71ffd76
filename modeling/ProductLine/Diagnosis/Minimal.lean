import ProductLine.Diagnosis.Enumeration

/-! # Minimal diagnoses

What a search for diagnoses is to find, said without it: `IsDiagnosis` of candidates over a
background, and `IsMinimal` if no smaller part is one. `greedy` is a scan of the candidates from the
last to the first that keeps whatever it can; it finds the minimal diagnosis that the order of the
candidates prefers. -/

namespace ProductLine
namespace Diagnosis

/-- The constraints can hold together. -/
def Consistent (cs : List Constraint) : Prop := Formula.Satisfiable (Constraint.formulas cs)

/-- A part of the candidates without which the others and the background can hold together. -/
def IsDiagnosis (candidates background diagnosis : List Constraint) : Prop :=
  diagnosis ⊆ candidates ∧
    Consistent (Constraint.union background (Constraint.subtract candidates diagnosis))

/-- A diagnosis none of whose proper parts is one. -/
def IsMinimal (candidates background diagnosis : List Constraint) : Prop :=
  IsDiagnosis candidates background diagnosis ∧
    ∀ part, part ⊆ diagnosis → IsDiagnosis candidates background part → diagnosis ⊆ part

/-- One step of the scan: the constraint is kept if it can be, and put aside otherwise. -/
def greedyStep (state : List Constraint × List Constraint) (c : Constraint) :
    List Constraint × List Constraint :=
  if Formula.satisfiable (Constraint.formulas (state.1 ++ [c])) then (state.1 ++ [c], state.2)
  else (state.1, state.2 ++ [c])

/-- What is kept of constraints and what is put aside, one after the other, over a background. -/
def scan (background cs : List Constraint) : List Constraint × List Constraint :=
  cs.foldl greedyStep (background, [])

/-- What a scan of the candidates from the last to the first has to put aside. -/
def greedy (candidates background : List Constraint) : List Constraint :=
  (scan background candidates.reverse).2

/-- The diagnosis that the order of the candidates prefers, if the background can hold at all. -/
def preferred (candidates background : List Constraint) : List Constraint :=
  if Formula.satisfiable (Constraint.formulas (Constraint.union background [])) then
    greedy candidates (Constraint.union background [])
  else []

theorem consistent_iff (cs : List Constraint) :
    Consistent cs ↔ Formula.satisfiable (Constraint.formulas cs) = true :=
  (Formula.satisfiable_iff _).symm

theorem Consistent.mono {cs ds : List Constraint} (h : Consistent ds) (sub : cs ⊆ ds) :
    Consistent cs := by
  obtain ⟨v, hv⟩ := h
  refine ⟨v, fun f hf => ?_⟩
  obtain ⟨c, hc, rfl⟩ := List.mem_map.mp hf
  exact hv _ (List.mem_map_of_mem (sub hc))

end Diagnosis
end ProductLine
