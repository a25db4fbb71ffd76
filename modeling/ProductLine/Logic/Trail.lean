import ProductLine.Logic.Literal

/-! # Trails

A `Trail` is what a search has assigned: the literals that hold, in the order in which they were
assigned. A guess begins a new level; to go back to a level is to take back everything that was
assigned above it. -/

namespace ProductLine

/-- What is known of a literal during a search. -/
inductive Truth where
  | undecided
  | holding
  | failing
deriving DecidableEq, Repr

/-- The truth of each literal; for each variable its level, its moment (how many were assigned
before), and the number of the clause behind it plus one, or zero; the literals that hold; how many
of them there were before each guess; and how many have been followed up. -/
structure Trail where
  truths : Array Truth
  levels : Array Nat
  moments : Array Nat
  reasons : Array Nat
  literals : Array Nat
  starts : Array Nat
  followed : Nat

namespace Trail

/-- The trail over so many variables on which nothing is assigned. -/
def new (n : Nat) : Trail where
  truths := Array.replicate (2 * n) .undecided
  levels := Array.replicate n 0
  moments := Array.replicate n 0
  reasons := Array.replicate n 0
  literals := #[]
  starts := #[]
  followed := 0

variable (t : Trail)

@[inline] def truth (l : Nat) : Truth := t.truths.getD l .undecided

@[inline] def level (l : Nat) : Nat := t.levels.getD (Literal.atom l) 0

@[inline] def moment (l : Nat) : Nat := t.moments.getD (Literal.atom l) 0

/-- The number of the clause by which a literal was decided. -/
def reason? (l : Nat) : Option Nat :=
  match t.reasons.getD (Literal.atom l) 0 with
  | 0 => none
  | i + 1 => some i

/-- Whether nothing is guessed. -/
def atBottom : Bool := t.starts.isEmpty

/-- Makes a literal hold; the reason is the number of a clause plus one, or zero. -/
def assign (l reason : Nat) : Trail :=
  let n := Literal.atom l
  { t with
    truths := (t.truths.setIfInBounds l .holding).setIfInBounds (Literal.opposite l) .failing
    levels := t.levels.setIfInBounds n t.starts.size
    moments := t.moments.setIfInBounds n t.literals.size
    reasons := t.reasons.setIfInBounds n reason
    literals := t.literals.push l }

/-- Makes a literal hold on a new level. -/
def guess (l : Nat) : Trail := { t with starts := t.starts.push t.literals.size }.assign l 0

/-- Takes back assignments, so many of them; gives also the literals taken back. -/
def retract : Nat → List Nat → Trail → List Nat × Trail
  | 0, taken, t => (taken, t)
  | count + 1, taken, t =>
    match t.literals.back? with
    | none => (taken, t)
    | some l =>
      retract count (l :: taken)
        { t with
          literals := t.literals.pop
          truths := (t.truths.setIfInBounds l .undecided).setIfInBounds (Literal.opposite l)
            .undecided }

/-- Goes back to a level; gives also the literals taken back. -/
def backtrack (level : Nat) : List Nat × Trail :=
  match t.starts[level]? with
  | none => ([], t)
  | some start =>
    let (taken, t) := retract (t.literals.size - start) [] t
    (taken, { t with starts := t.starts.take level, followed := start })

end Trail
end ProductLine
