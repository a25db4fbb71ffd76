import ProductLine.Logic.Formula
import ProductLine.Relationship.Basic

/-! # Constraints

A `Constraint` is a formula over feature names with a number by which it is told apart, its role,
and the relationship it stands for, if any. Lists of constraints are handled as ordered sets of such
numbers: `Constraint.subtract` and `Constraint.union` keep the order, and `Constraint.post` adds
what is not there yet. `Constraint.explain` names the relationships behind constraints. -/

namespace ProductLine

/-- The role of a constraint. -/
inductive Constraint.Role where
  | relationship
  | crossTree
  | root
  | assignment
  | negation
deriving DecidableEq, Repr

namespace Constraint.Role

def name : Constraint.Role → String
  | .relationship => "relationship"
  | .crossTree => "cross-tree"
  | .root => "root"
  | .assignment => "assignment"
  | .negation => "negation"

def ofName? (s : String) : Option Constraint.Role :=
  [relationship, crossTree, root, assignment, negation].find? (·.name == s)

end Constraint.Role

/-- A formula with a number, a role and the relationship it stands for. -/
structure Constraint where
  id : Int
  formula : Formula String
  role : Constraint.Role
  source : Option Relationship
deriving Repr

namespace Constraint

def ids (cs : List Constraint) : List Int := cs.map (·.id)

def formulas (cs : List Constraint) : List (Formula String) := cs.map (·.formula)

/-- Whether the list has a constraint of the same number. -/
def isIn (c : Constraint) (cs : List Constraint) : Bool := cs.any (·.id == c.id)

/-- The constraints without those of the second list, in order. -/
def subtract (cs removed : List Constraint) : List Constraint := cs.filter fun c => !c.isIn removed

/-- The list with a constraint at its end, unless its number is there already. -/
def insert (cs : List Constraint) (c : Constraint) : List Constraint :=
  if c.isIn cs then cs else cs ++ [c]

/-- The list with more constraints at its end, those left out whose numbers are there already. -/
def post (cs added : List Constraint) : List Constraint := added.foldl insert cs

/-- The constraints of both lists in the order of first appearance. -/
def union (first second : List Constraint) : List Constraint := post [] (first ++ second)

/-- The rule of the relationship behind a constraint. -/
def rule (c : Constraint) : Except Failure (Option String) :=
  match c.source with
  | some r => do return some (← r.rule)
  | none => .ok none

/-- The rules of the relationships behind constraints, in order and each once. -/
def explain (cs : List Constraint) : Except Failure (List String) :=
  cs.foldlM (fun rules c => do
    match ← c.rule with
    | some rule => return if rule ∈ rules then rules else rules ++ [rule]
    | none => return rules) []

/-- How a constraint is printed: variables carry the mark `f_` in front of the feature name. -/
def text (c : Constraint) : String := c.formula.text ("f_" ++ ·)

theorem isIn_iff (c : Constraint) (cs : List Constraint) : c.isIn cs = true ↔ c.id ∈ ids cs := by
  simp [isIn, ids, List.any_eq_true]

theorem mem_subtract {c : Constraint} {cs removed : List Constraint} :
    c ∈ subtract cs removed ↔ c ∈ cs ∧ c.id ∉ ids removed := by
  simp [subtract, List.mem_filter, ← isIn_iff]

@[simp] theorem post_nil (cs : List Constraint) : post cs [] = cs := rfl

@[simp] theorem post_cons (cs : List Constraint) (c : Constraint) (added : List Constraint) :
    post cs (c :: added) = post (insert cs c) added := rfl

theorem ids_insert_nodup {cs : List Constraint} (h : (ids cs).Nodup) (c : Constraint) :
    (ids (insert cs c)).Nodup := by
  unfold insert
  split
  · exact h
  · next hc =>
    rw [isIn_iff] at hc
    rw [ids, List.map_append, List.nodup_append]
    refine ⟨h, by simp, fun a ha b hb => ?_⟩
    rw [List.map_singleton, List.mem_singleton] at hb
    exact fun hab => hc (hb ▸ hab ▸ ha)

/-- Posting never repeats a number. -/
theorem ids_post_nodup {cs : List Constraint} (h : (ids cs).Nodup) (added : List Constraint) :
    (ids (post cs added)).Nodup := by
  induction added generalizing cs with
  | nil => exact h
  | cons c added ih => exact ih (ids_insert_nodup h c)

end Constraint
end ProductLine
