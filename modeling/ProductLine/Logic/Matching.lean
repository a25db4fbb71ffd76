/-! # Matchings

Rows wish for places, each for one of several, and no two can have the same. `Matching.crowd?` gives
the rows places one after the other, moving those that have one already along to another that they
wish for. When a row cannot be placed, the places that were tried are fewer than the rows that wish
for nothing else. -/

namespace ProductLine

/-- For each place the row that has it, and whether it has been tried for the row in turn. -/
structure Matching where
  holders : Array (Option Nat)
  tried : Array Bool

namespace Matching

def new (places : Nat) : Matching := ⟨Array.replicate places none, #[]⟩

def give (m : Matching) (place row : Nat) : Matching :=
  { m with holders := m.holders.setIfInBounds place (some row) }

/-- Looks for a place for a row among some that it wishes for, and tells whether there is one. -/
def seat (wishes : Array (List Nat)) : Nat → Nat → List Nat → Matching → Bool × Matching
  | 0, _, _, m => (false, m)
  | _, _, [], m => (false, m)
  | fuel + 1, row, place :: rest, m =>
    if m.tried.getD place true then seat wishes fuel row rest m
    else
      let m := { m with tried := m.tried.setIfInBounds place true }
      match m.holders.getD place none with
      | none => (true, m.give place row)
      | some other =>
        match seat wishes fuel other (wishes.getD other []) m with
        | (true, m) => (true, m.give place row)
        | (false, m) => seat wishes fuel row rest m

def triedPlaces (m : Matching) : List Nat :=
  (List.range m.tried.size).filter (m.tried.getD · false)

/-- Gives places to rows one after the other; a row that is left over and the places it tried. -/
def leftOver? (wishes : Array (List Nat)) (fuel : Nat) :
    List Nat → Matching → Option (Nat × Matching)
  | [], _ => none
  | row :: rest, m =>
    let m := { m with tried := Array.replicate m.holders.size false }
    match seat wishes fuel row (wishes.getD row []) m with
    | (true, m) => leftOver? wishes fuel rest m
    | (false, m) => some (row, m)

/-- Rows that wish for fewer places than they are, and those places, if there are any. -/
def crowd? (wishes : Array (List Nat)) (places : Nat) : Option (List Nat × List Nat) :=
  let fuel := wishes.foldl (fun n ps => n + ps.length + 1) 1
  (leftOver? wishes fuel (List.range wishes.size) (new places)).map fun (row, m) =>
    (row :: m.triedPlaces.filterMap fun place => m.holders.getD place none, m.triedPlaces)

end Matching
end ProductLine
