import Mathlib.Data.List.Nodup
import ProductLine.Constraint.Basic

/-! # Constraints under other numbers

The numbers of constraints only tell them apart. As long as different numbers stay different, it does
not matter which ones they are: whatever is done to sets of constraints is done to the renumbered ones
just the same, and neither what the constraints say nor how they are explained is another. -/

namespace ProductLine
namespace Constraint

/-- The constraint under another number. -/
def renumber (ρ : Int → Int) (c : Constraint) : Constraint := { c with id := ρ c.id }

variable {ρ : Int → Int}

theorem formulas_renumber (cs : List Constraint) :
    formulas (cs.map (renumber ρ)) = formulas cs := by
  unfold formulas
  rw [List.map_map]
  rfl

/-- The rules are those of the relationships behind, whatever the numbers. -/
theorem explain_renumber (cs : List Constraint) : explain (cs.map (renumber ρ)) = explain cs := by
  unfold explain
  rw [List.foldlM_map]
  rfl

section injective

variable (hρ : Function.Injective ρ)
include hρ

theorem isIn_renumber (c : Constraint) (cs : List Constraint) :
    (renumber ρ c).isIn (cs.map (renumber ρ)) = c.isIn cs := by
  have hsame : ∀ d : Constraint, ((renumber ρ d).id == (renumber ρ c).id) = (d.id == c.id) := by
    intro d
    rw [Bool.eq_iff_iff, beq_iff_eq, beq_iff_eq]
    exact hρ.eq_iff
  unfold isIn
  rw [List.any_map]
  exact congrArg cs.any (funext hsame)

theorem subtract_renumber (cs removed : List Constraint) :
    subtract (cs.map (renumber ρ)) (removed.map (renumber ρ)) =
      (subtract cs removed).map (renumber ρ) := by
  unfold subtract
  rw [List.filter_map]
  congr 1
  apply List.filter_congr
  intro c _
  rw [Function.comp_apply, isIn_renumber hρ]

theorem insert_renumber (cs : List Constraint) (c : Constraint) :
    insert (cs.map (renumber ρ)) (renumber ρ c) = (insert cs c).map (renumber ρ) := by
  unfold insert
  rw [isIn_renumber hρ]
  split
  · rfl
  · rw [List.map_append]
    rfl

theorem post_renumber (cs added : List Constraint) :
    post (cs.map (renumber ρ)) (added.map (renumber ρ)) = (post cs added).map (renumber ρ) := by
  induction added generalizing cs with
  | nil => rfl
  | cons c added ih => rw [List.map_cons, post_cons, post_cons, insert_renumber hρ, ih]

theorem union_renumber (first second : List Constraint) :
    union (first.map (renumber ρ)) (second.map (renumber ρ)) =
      (union first second).map (renumber ρ) := by
  unfold union
  rw [← List.map_append]
  exact post_renumber hρ [] _

theorem ids_renumber_nodup {cs : List Constraint} (h : (ids cs).Nodup) :
    (ids (cs.map (renumber ρ))).Nodup := by
  have hids : ids (cs.map (renumber ρ)) = (ids cs).map ρ := by
    unfold ids
    rw [List.map_map, List.map_map]
    rfl
  rw [hids]
  exact h.map hρ

end injective

/-! ### Numbers given out later -/

/-- Moves the numbers from a first one on. -/
def shift (first gap : Nat) (i : Int) : Int := if i < first then i else i + gap

variable {first gap : Nat}

theorem shift_injective : Function.Injective (shift first gap) := by
  intro i j h
  unfold shift at h
  split at h <;> split at h <;> omega

theorem shift_of_le {n : Nat} (h : first ≤ n) : shift first gap n = (n + gap : Nat) := by
  unfold shift
  split <;> omega

theorem map_shift_of_lt {cs : List Constraint} (h : ∀ i ∈ ids cs, i < first) :
    cs.map (renumber (shift first gap)) = cs := by
  conv_rhs => rw [← List.map_id cs]
  apply List.map_congr_left
  intro c hc
  unfold renumber shift
  rw [if_pos (h c.id (List.mem_map_of_mem hc))]
  rfl

end Constraint
end ProductLine
