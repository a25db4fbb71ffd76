import ProductLine.Logic.Crowd
import ProductLine.Logic.Matching
import ProductLine.Logic.Trail

/-! # Rivals

`Rivals.clause?` looks for a crowd among clauses that are not met yet. It takes clauses that share
no undecided literals, arranges those literals into groups of which at most one can hold, and finds
out by a matching whether the clauses need more groups than there are. If so, the crowd's clause
fails. Nothing here has to be proved: `Clause.crowded?` checks what was found. -/

namespace ProductLine
namespace Rivals

variable {P : (Nat → Bool) → Prop}

/-- For each literal the clauses by which it excludes others. -/
def exclusions (size : Nat) (units : Units P) (clauses : Array (Clause P)) :
    Array (List (Clause P)) :=
  clauses.foldl (fun table c =>
    let c := c.reduce units
    match c.literals with
    | [l, k] =>
      (table.modify (Literal.opposite l) (c :: ·)).modify (Literal.opposite k) (c :: ·)
    | _ => table) (Array.replicate size [])

/-- The literals that clauses exclude beside a literal. -/
def excluded (l : Nat) (cs : List (Clause P)) : List Nat :=
  cs.filterMap fun c => (c.literals.find? (· ≠ Literal.opposite l)).map Literal.opposite

/-- A clause with its undecided literals. -/
abbrev Row (P : (Nat → Bool) → Prop) := Clause P × List Nat

/-- The undecided literals of a clause that is not met and has at least two of them, all of which
exclude others. -/
def row? (t : Trail) (table : Array (List (Clause P))) (c : Clause P) : Option (Row P) :=
  let free := c.literals.filter fun l => t.truth l = .undecided
  if c.literals.any (fun l => t.truth l = .holding) || free.length < 2 ||
    free.any (fun l => (table.getD l []).isEmpty) then none
  else some (c, free)

/-- Rows in two parts: the first has those that share no literal with one before. -/
def part (size : Nat) (rows : List (Row P)) : List (Row P) × List (Row P) :=
  let (taken, left, _) := rows.foldl (fun (taken, left, used) r =>
    if r.2.any (fun l => Array.getD used l true) then (taken, r :: left, used)
    else (r :: taken, left, r.2.foldl (fun used l => used.setIfInBounds l true) used))
    ([], [], Array.replicate size false)
  (taken.reverse, left.reverse)

/-- An arrangement of literals into groups: the group of each literal (its number plus one, or
zero), the row of each literal, and the groups. -/
structure Arrangement where
  groupOf : Array Nat
  rowOf : Array Nat
  groups : Array (List Nat)

namespace Arrangement

def new (size : Nat) : Arrangement := ⟨Array.replicate size 0, Array.replicate size 0, #[]⟩

variable (a : Arrangement)

/-- A group in which a literal of a row excludes all others, none of which is of the same row. -/
def groupFor? (row : Nat) (others : List Nat) : Option Nat :=
  (others.findSome? fun k =>
    match a.groupOf.getD k 0 with
    | 0 => none
    | g + 1 =>
      if (a.groups.getD g []).all fun j => others.contains j && a.rowOf.getD j 0 ≠ row then some g
      else none)

def insert (row l : Nat) (others : List Nat) : Arrangement :=
  let g := (a.groupFor? row others).getD a.groups.size
  { groupOf := a.groupOf.setIfInBounds l (g + 1)
    rowOf := a.rowOf.setIfInBounds l row
    groups := if g < a.groups.size then a.groups.modify g (l :: ·) else a.groups.push [l] }

end Arrangement

/-- The literals of rows arranged into groups. -/
def arrange (size : Nat) (table : Array (List (Clause P))) (rows : List (Row P)) : Arrangement :=
  rows.zipIdx.foldl (fun a (r, number) =>
    r.2.foldl (fun a l => a.insert number l (excluded l (table.getD l []))) a)
    (Arrangement.new size)

/-- The clause of a crowd among rows that share no literals. -/
def crowdOf? (size : Nat) (table : Array (List (Clause P))) (rows : List (Row P)) :
    Option (Clause P) := do
  let a := arrange size table rows
  let wishes := (rows.map fun r => r.2.map fun l => a.groupOf.getD l 0 - 1).toArray
  let (numbers, places) ← Matching.crowd? wishes a.groups.size
  let array := rows.toArray
  let groups ← places.mapM fun g => Group.ofList? (table.getD · [])
    ((a.groups.getD g []).filter fun l => numbers.contains (a.rowOf.getD l 0))
  Clause.crowded? groups (numbers.filterMap fun n => (array[n]?).map (·.1))

/-- A clause that fails because of a crowd among the clauses given, if one is found. -/
def clause? (t : Trail) (units : Units P) (clauses : Array (Clause P))
    (given : List (Clause P)) : Option (Clause P) :=
  let size := t.truths.size
  let table := exclusions size units clauses
  let (taken, left) := part size (given.filterMap (row? t table))
  match crowdOf? size table taken with
  | some c => some c
  | none =>
    if left.isEmpty then none else crowdOf? size table (part size (left ++ taken)).1

end Rivals
end ProductLine
