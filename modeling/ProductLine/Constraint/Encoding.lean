import ProductLine.Constraint.Basic
import ProductLine.FeatureModel.Tree

/-! # Relationships as formulas

`Encoding.structural` and `Encoding.crossTree` give the formulas of a relationship over the
variables of the features:

* `mandatory(p, c)`: `p` and `c` are equivalent;
* `optional(c, p)`: `c` implies `p`;
* `or(p, c…)`: `p` is equivalent to the disjunction of the members, written as two implications;
* `alternative(p, c…)`: one formula for every member, by which it is equivalent to `p` without all
  other members;
* `requires(a, b)`: `a` implies `b`;
* `excludes(a, b)`: not both.

`Encoding.negation` is the opposite of a cross-tree constraint. Every name must be that of a
feature, a group must not be empty, and a relationship must stand on its own side of the model. -/

namespace ProductLine
namespace Encoding

open Formula

variable (features : List String)

/-- The feature that a side of a relationship names. -/
def feature (r : Relationship) (name : Value) : Except Failure String :=
  match name.key? with
  | none => .error (.notAName name)
  | some key =>
    match features.find? fun f => decide (.text f = key) with
    | some f => .ok f
    | none => do throw (.undeclared name (← r.rule))

/-- Both directions between a feature and a formula. -/
def both (f g : Formula String) : Formula String := and (implies f g) (implies g f)

/-- A member of an alternative group is equivalent to the parent without all members at other
places. -/
def onlyMember (parent : String) (members : List String) (member : String) (place : Nat) :
    Formula String :=
  both (var member)
    (Formula.all (var parent :: (members.eraseIdx place).map fun other => not (var other)))

def alternative (parent : String) (members : List String) : List (Formula String) :=
  members.zipIdx.map fun (member, place) => onlyMember parent members member place

/-- The first feature of a right side. -/
def first : List String → Except Failure String
  | [] => .error .noRightSide
  | f :: _ => .ok f

def structural (r : Relationship) : Except Failure (List (Formula String)) := do
  let left ← feature features r r.left
  let rights ← r.right.mapM (feature features r)
  match r.kind with
  | .mandatory => return [iff (var left) (var (← first rights))]
  | .optional => return [implies (var left) (var (← first rights))]
  | kind =>
    if rights.isEmpty then throw (.emptyGroup (← r.rule))
    match kind with
    | .or => return [both (var left) (Formula.any (rights.map var))]
    | .alternative => return alternative left rights
    | _ => throw (.misplacedConstraint (← r.rule))

/-- The first feature of a relationship's right side. -/
def firstRight (r : Relationship) : Except Failure Value :=
  match r.right with
  | [] => .error .noRightSide
  | right :: _ => .ok right

def crossTree (r : Relationship) : Except Failure (Formula String) := do
  let left ← feature features r r.left
  let right ← feature features r (← firstRight r)
  match r.kind with
  | .requires => return implies (var left) (var right)
  | .excludes => return or (not (var left)) (not (var right))
  | _ => throw (.misplacedRelationship (← r.rule))

/-- The opposite of a cross-tree constraint of a kind between two features. -/
def negation (kind : Relationship.Kind) (left right : String) : Formula String :=
  match kind with
  | .requires => and (var left) (not (var right))
  | _ => and (var left) (var right)

end Encoding
end ProductLine
