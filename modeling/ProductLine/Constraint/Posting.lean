import ProductLine.Constraint.Basic

/-! # Postings

What is posted is kept twice: as a list of constraints, in the order in which they were posted, and as
the set of their numbers, by which it is told what is there already. Each operation changes both. -/

namespace ProductLine

/-- The posted constraints in order, and the numbers that are taken. -/
structure Posting where
  listed : List Constraint
  numbers : List Int
deriving Repr

namespace Posting

def empty : Posting := ⟨[], []⟩

variable (p : Posting)

/-- Puts a constraint at the end, unless its number is taken. -/
def add (c : Constraint) : Posting :=
  if c.id ∈ p.numbers then p else ⟨p.listed ++ [c], p.numbers ++ [c.id]⟩

/-- Puts constraints at the end one after the other. -/
def post (cs : List Constraint) : Posting := cs.foldl add p

/-- Takes back the constraints of some numbers. If none of the numbers is taken, nothing is done. -/
def unpost (cs : List Constraint) : Posting :=
  if (Constraint.ids cs).any (· ∈ p.numbers) then
    ⟨Constraint.subtract p.listed cs, p.numbers.filter (· ∉ Constraint.ids cs)⟩
  else p

@[simp] theorem post_nil : p.post [] = p := rfl

@[simp] theorem post_cons (c : Constraint) (cs : List Constraint) :
    p.post (c :: cs) = (p.add c).post cs := rfl

end Posting
end ProductLine
