import ProductLine.Logic.Clausal
import ProductLine.Logic.Learner
import ProductLine.Logic.Splitting

/-! # Deciding satisfiability

`Formula.satisfiable` decides whether some assignment makes all formulas of a list true. Few
variables are tried by splitting. For more of them the formulas become clauses, and a search that
learns clauses either refutes them or proposes an assignment, which is tried; should it do neither,
splitting decides. In every case the decision is exact (`satisfiable_iff`). -/

namespace ProductLine
namespace Formula

variable {α : Type} [DecidableEq α] [Hashable α]

/-- Whether there are so few variables that splitting takes no time. -/
def isSmall (fs : List (Formula α)) : Bool :=
  let occurrences := fs.flatMap vars
  (occurrences.take 97).length ≤ 96 && occurrences.eraseDups.length ≤ 10

/-- More steps than a search can take. -/
def endless : Nat := 1000000000

/-- What a search that learns clauses finds out about formulas, when they demand alternatives. -/
def verdict (fs : List (Formula α)) (cs : List (Alternatives α))
    (h : ∀ v, Satisfies v fs → AllHold v cs) (n : Numbering α) : Verdict (n.Meets fs) :=
  Learner.search endless (Learner.ofClauses n.formulas.size (n.clauses fs cs h))

/-- The assignment behind values of numbered formulas. -/
def assignment (n : Numbering α) (w : Nat → Bool) (a : α) : Bool :=
  match n.numbers[var a]? with
  | some i => w i
  | none => false

/-- Whether some assignment makes every formula true, as the clauses that they demand tell. -/
def byAlternatives (fs : List (Formula α)) (cs : List (Alternatives α))
    (h : ∀ v, Satisfies v fs → AllHold v cs) : Bool :=
  let n := Numbering.ofAlternatives cs
  match verdict fs cs h n with
  | .refuted _ => false
  | .proposed w => fs.all (·.eval (assignment n w)) || bySplitting fs
  | .unfinished => bySplitting fs

/-- Whether some assignment makes every formula true, by a search that learns clauses. -/
def byLearning (fs : List (Formula α)) : Bool := byAlternatives fs (demands fs) (demands_sound fs)

/-- Whether some assignment makes every formula true. -/
def satisfiable (fs : List (Formula α)) : Bool :=
  if isSmall fs then bySplitting fs else byLearning fs

theorem byLearning_iff (fs : List (Formula α)) : byLearning fs = true ↔ Satisfiable fs := by
  simp only [byLearning, byAlternatives]
  generalize Numbering.ofAlternatives (demands fs) = n
  split
  · next h _ =>
    refine ⟨fun h => absurd h Bool.false_ne_true, fun ⟨v, hv⟩ => ?_⟩
    exact absurd ⟨v, hv, rfl⟩ (h (n.values v))
  · next w _ =>
    rw [Bool.or_eq_true, bySplitting_iff]
    refine ⟨fun h => h.elim (fun h => ⟨assignment n w, ?_⟩) id, .inr⟩
    exact List.all_eq_true.mp h
  · exact bySplitting_iff fs

/-- The decision is exact. -/
theorem satisfiable_iff (fs : List (Formula α)) : satisfiable fs = true ↔ Satisfiable fs := by
  unfold satisfiable
  split
  · exact bySplitting_iff fs
  · exact byLearning_iff fs

end Formula
end ProductLine
