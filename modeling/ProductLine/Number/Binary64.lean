/-! # Binary floating point

`Binary64` is the set of numbers of the 64-bit binary floating-point format, held exactly: a finite
one is `±mantissa · 2 ^ exponent` with a mantissa below `2 ^ 53`. Numbers enter by correct rounding
of a decimal (`ofDecimal`), leave by their shortest decimal, and are compared with whole numbers
exactly; there is no other arithmetic. -/

namespace ProductLine

/-- A 64-bit binary floating-point number. The exponent of a finite one is at least `-1074`, and
above that only if the mantissa has all its 53 bits, so that equal numbers of one sign have one
form. -/
inductive Binary64 where
  | finite (negative : Bool) (mantissa : Nat) (exponent : Int)
  | infinite (negative : Bool)
  | nan
deriving DecidableEq, Repr, Inhabited

namespace Binary64

/-- The least exponent of a finite number, also that of zero. -/
def leastExponent : Int := -1074

def zero (negative : Bool) : Binary64 := .finite negative 0 leastExponent

/-- A power of a base, one for a negative exponent. -/
def power (base : Nat) (exponent : Int) : Nat := Nat.pow base exponent.toNat

/-- The quotient rounded to the nearest whole number, a half to the even neighbour. -/
def roundQuotient (num den : Nat) : Nat :=
  let q := num / den
  let twice := 2 * (num % den)
  if twice < den then q else if den < twice then q + 1 else q + q % 2

/-- The greatest `l` with `2 ^ l ≤ num / den`, for positive `num` and `den`. -/
def logQuotient (num den : Nat) : Int :=
  let l : Int := num.log2 - den.log2
  if den * power 2 l ≤ num * power 2 (-l) then l else l - 1

/-- The number nearest to `±num / den`, for a positive `den`; half way between two, the one with an
even mantissa. -/
def ofQuotient (negative : Bool) (num den : Nat) : Binary64 :=
  if num = 0 then zero negative else
    let e := max (logQuotient num den - 52) leastExponent
    let m := roundQuotient (num * power 2 (-e)) (den * power 2 e)
    let (m, e) := if m = power 2 53 then (power 2 52, e + 1) else (m, e)
    if 971 < e then .infinite negative else .finite negative m e

/-- How many decimal digits a number is written with. -/
def digitCount (n : Nat) : Nat := (Nat.toDigits 10 n).length

/-- The number nearest to `±digits · 10 ^ exponent`. Decimals beyond the range of the format are
told by their size, so that no power of ten outside it is ever computed. -/
def ofDecimal (negative : Bool) (digits : Nat) (exponent : Int) : Binary64 :=
  let size := digitCount digits + exponent
  if digits = 0 ∨ size < -330 then zero negative
  else if 310 < size then .infinite negative
  else ofQuotient negative (digits * power 10 exponent) (power 10 (-exponent))

def isZero : Binary64 → Bool
  | .finite _ m _ => m == 0
  | _ => false

/-- How the number compares with a whole number; what is no number does not. -/
def compareInt? (x : Binary64) (n : Int) : Option Ordering :=
  match x with
  | .finite negative m e =>
    let scaled : Int := (m * power 2 e : Nat)
    some (compare (if negative then -scaled else scaled) (n * (power 2 (-e) : Nat)))
  | .infinite negative => some (if negative then .lt else .gt)
  | .nan => none

/-- The whole number that this number is equal to, if there is one. -/
def toInt? : Binary64 → Option Int
  | .finite negative m e =>
    let den := power 2 (-e)
    if m % den = 0 then
      let whole : Int := (m * power 2 e / den : Nat)
      some (if negative then -whole else whole)
    else none
  | _ => none

/-- The number nearest to a whole number. -/
def ofInt (n : Int) : Binary64 := ofQuotient (n < 0) n.natAbs 1

/-- The whole number nearest to a whole number among those that the format holds; none for what is
beyond its range. -/
def roundInt? (n : Int) : Option Int := (ofInt n).toInt?

end Binary64
end ProductLine
