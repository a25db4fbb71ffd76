/-! # Literals

A *literal* is a variable or its negation. Variables are numbers, and so are literals: the variable
`n` has the literals `2 * n` and `2 * n + 1`, the second one for its negation. Of a literal and its
opposite exactly one holds (`holds_opposite`). -/

namespace ProductLine
namespace Literal

/-- The literal by which a variable has a value. -/
def ofValue (n : Nat) (value : Bool) : Nat := if value then 2 * n else 2 * n + 1

@[inline] def atom (l : Nat) : Nat := l / 2

/-- Whether a literal asks for its variable to be true. -/
@[inline] def value (l : Nat) : Bool := l % 2 == 0

@[inline] def opposite (l : Nat) : Nat := if value l then l + 1 else l - 1

def holds (w : Nat → Bool) (l : Nat) : Bool := w (atom l) == value l

@[simp] theorem holds_ofValue (w : Nat → Bool) (n : Nat) (b : Bool) :
    holds w (ofValue n b) = (w n == b) := by
  cases b
  · have : (2 * n + 1) / 2 = n := by omega
    simp [holds, ofValue, value, atom, this]
  · simp [holds, ofValue, value, atom]

@[simp] theorem holds_opposite (w : Nat → Bool) (l : Nat) : holds w (opposite l) = !holds w l := by
  by_cases h : l % 2 = 0
  · have h1 : (l + 1) / 2 = l / 2 := by omega
    have h2 : (l + 1) % 2 = 1 := by omega
    simp [opposite, holds, value, atom, h, h1, h2]
  · have h0 : l % 2 = 1 := by omega
    have h1 : (l - 1) / 2 = l / 2 := by omega
    have h2 : (l - 1) % 2 = 0 := by omega
    simp [opposite, holds, value, atom, h0, h1, h2]

end Literal
end ProductLine
