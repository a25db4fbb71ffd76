import ProductLine.Failure

/-! # Limits of an enumeration

An enumeration of diagnoses can be bounded in the number of diagnoses, in the depth below the first
one, and in time. The bounds are held as they were given, and looked at only when they are needed. A
`Diagnosis.Limit` is the bound at which an enumeration stopped. -/

namespace ProductLine
namespace Diagnosis

/-- The bounds of an enumeration; null does not bound. -/
structure Limits where
  diagnoses : Value
  depth : Value
  seconds : Value
deriving Repr

namespace Limits

def none : Limits := ⟨.null, .null, .null⟩

/-- At most a hundred diagnoses. -/
def standard : Limits := ⟨.int 100, .null, .null⟩

/-- The number that a bound is, if there is a bound. -/
def number? (bound : Value) : Except Failure (Option Number) :=
  match bound, bound.number? with
  | .null, _ => .ok .none
  | _, some n => .ok (some n)
  | _, .none => .error (.notANumber bound)

end Limits

/-- The bound at which an enumeration stopped. -/
inductive Limit where
  | diagnoses (most : Value)
  | depth (deepest : Value)
  | seconds (longest : Value)
deriving Repr

namespace Limit

def message : Limit → String
  | .diagnoses most => "More than " ++ most.display ++ " diagnoses"
  | .depth deepest => "Diagnosis enumeration exceeded depth " ++ deepest.display
  | .seconds longest => "Diagnosis enumeration exceeded " ++ longest.display ++ "s"

end Limit

namespace Limits

variable (limits : Limits)

/-- The limit that forbids one more diagnosis at a depth, if any: the number of diagnoses is looked
at first. -/
def stop? (count depth : Nat) : Except Failure (Option Limit) := do
  if (← number? limits.diagnoses).any (·.leInt count) then
    return some (.diagnoses limits.diagnoses)
  if (← number? limits.depth).any (·.ltInt depth) then
    return some (.depth limits.depth)
  return .none

/-- The limit in time, if it is passed after so many seconds. -/
def overtime? (elapsed : Int) : Except Failure (Option Limit) := do
  if (← number? limits.seconds).any (·.ltInt elapsed) then
    return some (.seconds limits.seconds)
  return .none

def timed : Bool :=
  match limits.seconds with
  | .null => false
  | _ => true

end Limits
end Diagnosis
end ProductLine
