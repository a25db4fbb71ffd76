import ProductLine.Failure

/-! # Relationships

A `Relationship` joins the feature on its left side to those on its right side. Its `rule` is the
text by which reports name it. Relationships of a model carry a key, and are told apart by it and
not by what they say; one made outside a model has no key and is the same as no other. -/

namespace ProductLine

/-- A structural relationship or a cross-tree constraint. Both sides are held as the model file gave
them. -/
structure Relationship where
  key : Option Nat
  kind : Relationship.Kind
  left : Value
  right : List Value
deriving Repr

namespace Relationship

def textOf : Value → Except Failure String
  | .text s => .ok s
  | _ => .error .ruleNotText

/-- The rule of a relationship: the kind, the left side, and the whole right side of a group or the
first feature of any other right side. -/
def rule (r : Relationship) : Except Failure String :=
  if r.kind.isGroup then do
    let names ← r.right.mapM textOf
    return r.kind.name ++ "(" ++ r.left.display ++ ", " ++ ",".intercalate names ++ ")"
  else
    match r.right with
    | [] => .error .noRightSide
    | first :: _ => .ok (r.kind.name ++ "(" ++ r.left.display ++ ", " ++ first.display ++ ")")

def isCrossTree (r : Relationship) : Bool := r.kind.isCrossTree

/-- Whether the left side is the feature with this name. -/
def hasLeft (r : Relationship) (name : String) : Bool :=
  match r.left with
  | .text s => s == name
  | _ => false

/-- Whether the right side has the feature with this name. -/
def hasRight (r : Relationship) (name : String) : Bool :=
  r.right.any fun
    | .text s => s == name
    | _ => false

/-- Whether two relationships are the same one of a model. -/
def same (r s : Relationship) : Bool :=
  match r.key, s.key with
  | some i, some j => i == j
  | _, _ => false

theorem hasLeft_iff (r : Relationship) (name : String) :
    r.hasLeft name = true ↔ r.left = .text name := by
  unfold hasLeft; split <;> simp_all

theorem hasRight_iff (r : Relationship) (name : String) :
    r.hasRight name = true ↔ .text name ∈ r.right := by
  simp only [hasRight, List.any_eq_true]
  constructor
  · rintro ⟨v, hv, h⟩
    split at h
    · rw [beq_iff_eq] at h; exact h ▸ hv
    · exact absurd h Bool.false_ne_true
  · exact fun h => ⟨_, h, beq_self_eq_true name⟩

end Relationship
end ProductLine
