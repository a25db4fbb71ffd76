/-! # Rankings

A `Ranking` holds variables, each with a score, and gives out the one with the highest score. It is
a heap: no variable has a higher score than the one at half its place. What is raised later counts
for more, because the gain grows all the time. -/

namespace ProductLine

/-- The scores of variables, what a variable gains when it is raised, the variables that are held,
as a heap, and for each variable its place in the heap plus one, or zero. -/
structure Ranking where
  scores : Array Nat
  gain : Nat
  heap : Array Nat
  places : Array Nat

namespace Ranking

/-- The ranking that holds so many variables, all with the same score. -/
def ofSize (n : Nat) : Ranking where
  scores := Array.replicate n 0
  gain := 100
  heap := Array.range n
  places := (Array.range n).map (· + 1)

/-- More levels than a heap can have. -/
def levels : Nat := 64

def maxGain : Nat := 1000000000000

variable (r : Ranking)

def score (n : Nat) : Nat := r.scores.getD n 0

def put (n place : Nat) : Ranking :=
  { r with heap := r.heap.setIfInBounds place n, places := r.places.setIfInBounds n (place + 1) }

/-- Lays a variable at a place, or higher up if those there have lower scores. -/
def rise : Nat → Nat → Nat → Ranking → Ranking
  | 0, n, place, r => r.put n place
  | _, n, 0, r => r.put n 0
  | fuel + 1, n, place + 1, r =>
    let above := r.heap.getD (place / 2) 0
    if r.score above < r.score n then rise fuel n (place / 2) (r.put above (place + 1))
    else r.put n (place + 1)

/-- The place below another one that has the higher score. -/
def below (place : Nat) : Nat :=
  let left := 2 * place + 1
  let right := 2 * place + 2
  if right < r.heap.size ∧ r.score (r.heap.getD left 0) < r.score (r.heap.getD right 0) then right
  else left

/-- Lays a variable at a place, or lower down if those there have higher scores. -/
def sink : Nat → Nat → Nat → Ranking → Ranking
  | 0, n, place, r => r.put n place
  | fuel + 1, n, place, r =>
    let next := r.below place
    let other := r.heap.getD next 0
    if next < r.heap.size ∧ r.score n < r.score other then
      sink fuel n next (r.put other place)
    else r.put n place

def insert (n : Nat) : Ranking :=
  if r.places.getD n 0 ≠ 0 then r
  else rise levels n r.heap.size { r with heap := r.heap.push n }

/-- Takes out the variable with the highest score. -/
def take? : Option (Nat × Ranking) :=
  match r.heap[0]?, r.heap.back? with
  | some n, some last =>
    let rest :=
      { r with heap := r.heap.pop, places := r.places.setIfInBounds n 0 }
    some (n, if rest.heap.isEmpty then rest else sink levels last 0 rest)
  | _, _ => none

/-- The ranking with the score of a variable raised. -/
def raise (n : Nat) : Ranking :=
  let r := { r with scores := r.scores.modify n (· + r.gain) }
  match r.places.getD n 0 with
  | 0 => r
  | place + 1 => rise levels n place r

/-- The ranking with a higher gain for what is raised from now on. When the numbers have become
large, all of them are lessened. -/
def advance : Ranking :=
  let r := { r with gain := r.gain + r.gain / 16 + 1 }
  if r.gain ≤ maxGain then r
  else { r with scores := r.scores.map (· / (maxGain / 100)), gain := 100 }

end Ranking
end ProductLine
