import ProductLine.Number.Binary64

/-! # Shortest decimals

`Binary64.shortest` is the decimal with the fewest digits that reads back as the number, and of
those the nearest to it. It looks at grids of decimals with 1, 2, … 17 significant digits: if any
point of a grid reads back, then one of the two neighbours of the number on that grid does, so the
first grid with such a neighbour wins. `DecimalLayout.render` sets the digits with or without an
exponent. -/

namespace ProductLine

/-- The number `digits · 10 ^ exponent`. -/
structure Decimal where
  digits : Nat
  exponent : Int
deriving DecidableEq, Repr

namespace Binary64

/-- The exponent of the leading decimal digit of `m · 2 ^ e`, for a positive `m`. The scale of
`10 ^ 400` makes every number of the format at least one. -/
def leadingExponent (m : Nat) (e : Int) : Int :=
  let scaled := m * power 2 e * power 10 400 / power 2 (-e)
  digitCount scaled - 401

/-- The neighbours of `m · 2 ^ e` among the multiples of `10 ^ k`, the nearer one first. -/
def gridNeighbours (m : Nat) (e k : Int) : List Decimal :=
  let num := m * power 2 e * power 10 (-k)
  let den := power 2 (-e) * power 10 k
  let below := num / den
  let twice := 2 * (num % den)
  if twice < den ∨ (twice = den ∧ below % 2 = 0) then [⟨below, k⟩, ⟨below + 1, k⟩]
  else [⟨below + 1, k⟩, ⟨below, k⟩]

/-- The decimal without zeros at the end of its digits. -/
def dropZeros : Nat → Decimal → Decimal
  | 0, d => d
  | fuel + 1, d => if d.digits % 10 = 0 then dropZeros fuel ⟨d.digits / 10, d.exponent + 1⟩ else d

/-- The nearest of the shortest decimals that read back as `m · 2 ^ e`, for a positive `m`.
Seventeen digits suffice for every number of the format. -/
def shortest (m : Nat) (e : Int) : Decimal :=
  let lead := leadingExponent m e
  let grids := (List.range 17).flatMap fun (n : Nat) => gridNeighbours m e (lead - n)
  let found := grids.find? fun d => ofDecimal false d.digits d.exponent = .finite false m e
  dropZeros 20 (found.getD ⟨m, e⟩)

end Binary64

/-- How decimals are set: from `least` up to but not including `beyond`, the exponent of the leading
digit is written out in zeros; outside, it follows an `e` with its sign and at least `width` digits.
-/
structure DecimalLayout where
  least : Int
  beyond : Int
  width : Nat

namespace DecimalLayout

def padded (width n : Nat) : String :=
  let ds := Nat.toDigits 10 n
  String.ofList (List.replicate (width - ds.length) '0' ++ ds)

/-- The text of a decimal. A written-out number always has a digit on either side of its point. -/
def render (layout : DecimalLayout) (d : Decimal) : String :=
  let ds := Nat.toDigits 10 d.digits
  let lead := d.exponent + ds.length - 1
  if layout.least ≤ lead ∧ lead < layout.beyond then
    if 0 ≤ d.exponent then String.ofList (ds ++ List.replicate d.exponent.toNat '0') ++ ".0"
    else if 0 ≤ lead then
      String.ofList (ds.take (lead.toNat + 1)) ++ "." ++ String.ofList (ds.drop (lead.toNat + 1))
    else "0." ++ String.ofList (List.replicate (-lead - 1).toNat '0' ++ ds)
  else
    let tail := ds.drop 1
    String.ofList (ds.take 1) ++ (if tail.isEmpty then "" else "." ++ String.ofList tail) ++ "e" ++
      (if lead < 0 then "-" else "+") ++ padded layout.width lead.natAbs

end DecimalLayout

/-- Floating-point numbers of the reports are written out from `0.0001` up to `10 ^ 16`, and with a
two-digit exponent outside. -/
def plainLayout : DecimalLayout := ⟨-4, 16, 2⟩

namespace Binary64

def text : Binary64 → String
  | .finite negative m e =>
    (if negative then "-" else "") ++ if m = 0 then "0.0" else plainLayout.render (shortest m e)
  | .infinite negative => if negative then "-inf" else "inf"
  | .nan => "nan"

end Binary64

end ProductLine
