import ProductLine.Number.Binary64

/-! # Numbers

A `Number` is a whole number of any size or a floating-point number. Both are compared with whole
numbers exactly. -/

namespace ProductLine

/-- A whole or a floating-point number. -/
inductive Number where
  | int (n : Int)
  | float (x : Binary64)
deriving DecidableEq, Repr

namespace Number

/-- How the number compares with a whole number, if it does. -/
def compareInt? : Number → Int → Option Ordering
  | .int m, n => some (compare m n)
  | .float x, n => x.compareInt? n

def ltInt (x : Number) (n : Int) : Bool := x.compareInt? n = some .lt

def leInt (x : Number) (n : Int) : Bool := x.ltInt n || x.compareInt? n = some .eq

theorem ltInt_int (m n : Int) : (int m).ltInt n = decide (m < n) := by
  simp only [ltInt, compareInt?, Option.some.injEq, Int.compare_eq_lt]

theorem leInt_int (m n : Int) : (int m).leInt n = decide (m ≤ n) := by
  simp only [leInt, ltInt_int, compareInt?, Option.some.injEq, Int.compare_eq_eq, Int.le_iff_lt_or_eq,
    Bool.decide_or]

end Number

end ProductLine
