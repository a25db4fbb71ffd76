import ProductLine.Logic.Ranking
import ProductLine.Logic.Rivals
import ProductLine.Logic.Watch

/-! # Learning clauses

A `Learner` looks for values of variables under which all its clauses hold. It guesses a literal,
assigns what follows from the clauses, and guesses again. When a clause fails, it resolves that
clause with the clauses behind the latest assignments until only one literal of the latest level is
left; the outcome is a new clause, which makes it go back and assign that literal.

The search itself needs no proof: a `Verdict` holds either values, which can be tried, or the proof
that there are none, which comes from an empty clause. -/

namespace ProductLine

/-- The outcome of a search. -/
inductive Verdict (P : (Nat → Bool) → Prop) where
  /-- Nothing meets the condition. -/
  | refuted (h : ∀ w, ¬P w)
  /-- These values of the variables are worth a try. -/
  | proposed (w : Nat → Bool)
  /-- The search has not come to an end. -/
  | unfinished

/-- The state of a search. Clauses have numbers; the span of a clause is zero if it was given, and
otherwise tells how many levels its literals were assigned at when it was learned. -/
structure Learner (P : (Nat → Bool) → Prop) where
  clauses : Array (Clause P)
  spans : Array Nat
  trail : Trail
  watch : Watch
  ranking : Ranking
  /-- The value that each variable had last. -/
  habits : Array Bool
  /-- What holds whatever is guessed, and how many literals of the trail are among it. -/
  units : Units P
  settled : Nat
  /-- A clause that fails whatever is guessed. -/
  failed : Option (Clause P)
  /-- How many clauses have been learned, and how many may be before some are forgotten. -/
  learned : Nat
  room : Nat
  /-- How many clauses may still be learned before the search starts anew, and where it is in the
  series of these numbers. -/
  patience : Nat
  series : Nat × Nat
  /-- How often a crowd is still looked for, and how many clauses must be learned before it is
  looked for again. -/
  alert : Nat
  calm : Nat

namespace Learner

variable {P : (Nat → Bool) → Prop}

/-- A search over so many variables, without clauses. -/
def new (P : (Nat → Bool) → Prop) (n : Nat) : Learner P where
  clauses := #[]
  spans := #[]
  trail := Trail.new n
  watch := Watch.new n
  ranking := Ranking.ofSize n
  habits := Array.replicate n false
  units := Units.none P (2 * n)
  settled := 0
  failed := none
  learned := 0
  room := 2000
  patience := 64
  series := (1, 1)
  alert := 0
  calm := 64

/-! ### What holds whatever is guessed -/

/-- Takes in a literal if a clause has no other one that could hold. -/
def settleBy (c : Clause P) (l : Nat) (units : Units P) : Units P :=
  if h : ((c.reduce units).literals.all (· == l)) = true then
    units.add l (Clause.holds_of_all_eq h)
  else units

/-- Takes in literals from the bottom of the trail, so many of them. -/
def settle : Nat → Learner P → Learner P
  | 0, s => s
  | count + 1, s =>
    match s.trail.literals[s.settled]? with
    | none => s
    | some l =>
      let units :=
        match (s.trail.reason? l).bind (s.clauses[·]?) with
        | some c => settleBy c l s.units
        | none => s.units
      settle count { s with units := units, settled := s.settled + 1 }

/-! ### Clauses -/

def append (l k : Nat) (c : Clause P) (span : Nat) (s : Learner P) : Learner P :=
  { s with
    clauses := s.clauses.push c
    spans := s.spans.push span
    watch := s.watch.add l k }

/-- Makes the only literal of a clause hold. -/
def assert (l : Nat) (c : Clause P) (s : Learner P) : Learner P :=
  { s with trail := s.trail.assign l 0, units := settleBy c l s.units }

/-- Adds a clause before anything is guessed. -/
def add (c : Clause P) (span : Nat) (s : Learner P) : Learner P :=
  let c := c.reduce s.units
  if c.literals.any s.units.has then s
  else
    match c.literals with
    | [] => { s with failed := some c }
    | [l] => s.assert l c
    | l :: k :: _ => s.append l k c span

/-- The search over so many variables for values under which clauses hold. -/
def ofClauses (n : Nat) (cs : List (Clause P)) : Learner P :=
  cs.foldl (fun s c => s.add c 0) (new P n)

/-- Forgets the half of the learned clauses with the larger spans, when there are too many. -/
def forget (s : Learner P) : Learner P :=
  if s.learned < s.room then s
  else
    let all := (s.clauses.zip s.spans).toList
    let given := all.filter (·.2 == 0)
    let learned := (all.filter (·.2 != 0)).reverse.mergeSort fun a b => a.2 ≤ b.2
    let kept := learned.take (learned.length / 2)
    let empty :=
      { s with
        clauses := #[]
        spans := #[]
        watch := Watch.new s.habits.size
        learned := kept.length
        room := s.room + 200 }
    (given ++ kept.reverse).foldl (fun s (c, span) => s.add c span) empty

def backtrack (level : Nat) (s : Learner P) : Learner P :=
  let (taken, trail) := s.trail.backtrack level
  { s with
    trail := trail
    habits := taken.foldl (fun h l => h.setIfInBounds (Literal.atom l) (Literal.value l)) s.habits
    ranking := taken.foldl (fun r l => r.insert (Literal.atom l)) s.ranking }

/-! ### Learning from a failure -/

/-- Resolves a clause that fails, with the latest of its literals first, until the first literal is
the only one of its level; gives also the variables that were resolved away. -/
def trace (clauses : Array (Clause P)) (units : Units P) (t : Trail) :
    Nat → Clause P → List Nat → Clause P × List Nat
  | 0, c, passed => (c, passed)
  | fuel + 1, c, passed =>
    match c.literals with
    | l :: k :: _ =>
      if t.level k < t.level l then (c, passed)
      else
        match (t.reason? l).bind (clauses[·]?) with
        | none => (c, passed)
        | some d =>
          trace clauses units t fuel (c.resolve t.moment ((d.reduce units).sort t.moment))
            (Literal.atom l :: passed)
    | _ => (c, passed)

/-- Leaves literals out of a clause that follow from the others. -/
def shorten (clauses : Array (Clause P)) (units : Units P) (t : Trail) (c : Clause P) : Clause P :=
  c.literals.tail.foldl (fun c l =>
    match (t.reason? l).bind (clauses[·]?) with
    | none => c
    | some d => Clause.shorten l (d.reduce units) c) c

/-- How many levels there are among literals that are sorted by them. -/
def span (t : Trail) : List Nat → Nat
  | l :: k :: rest => (if t.level l = t.level k then 0 else 1) + span t (k :: rest)
  | [_] => 1
  | [] => 0

/-- Goes back as far as a learned clause still has only one literal that does not fail, and makes
that hold. -/
def learn (c : Clause P) (s : Learner P) : Learner P :=
  match c.literals with
  | [] => s.add c 1
  | [l] => (s.backtrack 0).assert l c
  | l :: k :: _ =>
    let span := span s.trail c.literals
    let s := (s.backtrack (s.trail.level k)).append l k c span
    { s with trail := s.trail.assign l s.clauses.size }

/-- Learns from a clause that fails. -/
def digest (c : Clause P) (s : Learner P) : Learner P :=
  let t := s.trail
  let (c, passed) := trace s.clauses s.units t t.literals.size c []
  let c := shorten s.clauses s.units t c
  let atoms := passed ++ c.literals.map Literal.atom
  let ranking := (atoms.foldl Ranking.raise s.ranking).advance
  { s with
    ranking := ranking
    learned := s.learned + 1
    patience := s.patience - 1
    calm := s.calm - 1 }.learn c

/-! ### The search -/

/-- The next place in the series 1, 1, 2, 1, 1, 2, 4, 1, 1, 2, …: the second number is the item. -/
def advance : Nat × Nat → Nat × Nat
  | (u, v) => if u % (2 * v) = v then (u + 1, 1) else (u, 2 * v)

def restart (s : Learner P) : Learner P :=
  let s := (s.backtrack 0).forget
  let series := advance s.series
  let s := { s with patience := 64 * series.2, series := series }
  if s.calm = 0 then { s with alert := 4, calm := 64 * series.1 } else s

/-- Takes a variable that is not decided out of a ranking. -/
def choose? (truths : Array Truth) : Nat → Ranking → Option (Nat × Ranking)
  | 0, _ => none
  | fuel + 1, r =>
    match r.take? with
    | none => none
    | some (n, r) =>
      if truths.getD (2 * n) .undecided = .undecided then some (n, r) else choose? truths fuel r

/-- Guesses that a variable has the value that it had last. -/
def guess? (s : Learner P) : Option (Learner P) :=
  match choose? s.trail.truths (s.ranking.heap.size + 1) s.ranking with
  | none => none
  | some (n, r) =>
    let l := Literal.ofValue n (s.habits.getD n false)
    some { s with ranking := r, trail := s.trail.guess l }

/-- Follows up what has been assigned; gives a clause that fails, if one does. -/
def follow (s : Learner P) : Option (Clause P) × Learner P :=
  match s.failed with
  | some c => (some c, s)
  | none =>
    let (failed, trail, watch) := s.watch.follow s.clauses (s.trail.truths.size + 1) s.trail
    let s := { s with trail := trail, watch := watch }
    let s := if trail.atBottom then s.settle trail.literals.size else s
    (failed.bind (s.clauses[·]?), s)

/-- Looks for a clause that fails because of a crowd, if it is time to. -/
def lookAround (s : Learner P) : Option (Clause P) × Learner P :=
  if s.alert = 0 then (none, s)
  else
    let given := (s.clauses.zip s.spans).toList.filterMap fun (c, span) =>
      if span = 0 then some c else none
    match Rivals.clause? s.trail s.units s.clauses given with
    | some c => (some c, s)
    | none => (none, { s with alert := s.alert - 1 })

/-- Goes on after a clause has failed: learns from it, unless it fails whatever is guessed. -/
def fail (c : Clause P) (s : Learner P) : Verdict P ⊕ Learner P :=
  let c := (c.reduce s.units).sort s.trail.moment
  if h : c.literals = [] then .inl (.refuted (Clause.not_of_literals_eq_nil h))
  else .inr ((s.backtrack (c.literals.foldl (fun n l => max n (s.trail.level l)) 0)).digest c)

/-- One step of the search: follows up what was assigned, and learns, starts anew or guesses. -/
def step (s : Learner P) : Verdict P ⊕ Learner P :=
  match s.follow with
  | (some c, s) => s.fail c
  | (none, s) =>
    if s.patience = 0 then .inr s.restart
    else
      match s.lookAround with
      | (some c, s) => s.fail c
      | (none, s) =>
        match s.guess? with
        | some s => .inr s
        | none => .inl (.proposed fun n => s.trail.truth (2 * n) = .holding)

/-- The search, with fuel for as many steps. -/
def search : Nat → Learner P → Verdict P
  | 0, _ => .unfinished
  | fuel + 1, s =>
    match s.step with
    | .inl v => v
    | .inr s => search fuel s

end Learner
end ProductLine
