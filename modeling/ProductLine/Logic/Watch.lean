import ProductLine.Logic.Clause
import ProductLine.Logic.Trail

/-! # Watched literals

Of every clause two literals are watched. As long as neither fails, the clause asks for nothing; so
a clause is visited only when a literal fails that it watches. Then another literal that does not
fail is watched instead; if there is none, the other watched literal has to hold.
`Watch.follow` follows up all assignments of a trail in this way. -/

namespace ProductLine

/-- For each clause the two literals that it watches, and for each literal the numbers of the
clauses that watch it. -/
structure Watch where
  firsts : Array Nat
  seconds : Array Nat
  watchers : Array (List Nat)

namespace Watch

def new (n : Nat) : Watch := ⟨#[], #[], Array.replicate (2 * n) []⟩

variable (w : Watch)

def add (l k : Nat) : Watch :=
  let i := w.firsts.size
  { firsts := w.firsts.push l
    seconds := w.seconds.push k
    watchers := (w.watchers.modify l (i :: ·)).modify k (i :: ·) }

@[inline] def other (i l : Nat) : Nat :=
  let first := w.firsts.getD i 0
  if first = l then w.seconds.getD i 0 else first

/-- Lets a clause watch a literal instead of the one that it does not keep. -/
def move (i kept l : Nat) : Watch :=
  { firsts := w.firsts.setIfInBounds i kept
    seconds := w.seconds.setIfInBounds i l
    watchers := w.watchers.modify l (i :: ·) }

def setWatchers (l : Nat) (numbers : List Nat) : Watch :=
  { w with watchers := w.watchers.setIfInBounds l numbers }

/-- A literal of a clause, other than a given one, that does not fail. -/
def substitute? (truths : Array Truth) (other : Nat) : List Nat → Option Nat
  | [] => none
  | k :: rest =>
    match truths.getD k .undecided with
    | .failing => substitute? truths other rest
    | _ => if k = other then substitute? truths other rest else some k

variable {P : (Nat → Bool) → Prop}

/-- Visits clauses that watch a literal which fails; gives the number of one that fails, if one
does. -/
def visit (clauses : Array (Clause P)) (l : Nat) :
    List Nat → List Nat → Trail → Watch → Option Nat × Trail × Watch
  | [], kept, t, w => (none, t, w.setWatchers l kept)
  | i :: rest, kept, t, w =>
    let other := w.other i l
    match t.truth other with
    | .holding => visit clauses l rest (i :: kept) t w
    | found =>
      match clauses[i]? with
      | none => visit clauses l rest kept t w
      | some c =>
        match substitute? t.truths other c.literals with
        | some k => visit clauses l rest kept t (w.move i other k)
        | none =>
          match found with
          | .failing => (some i, t, w.setWatchers l (rest.reverseAux (i :: kept)))
          | _ => visit clauses l rest (i :: kept) (t.assign other (i + 1)) w

/-- Follows up what has been assigned; gives the number of a clause that fails, if one does. -/
def follow (clauses : Array (Clause P)) : Nat → Trail → Watch → Option Nat × Trail × Watch
  | 0, t, w => (none, t, w)
  | fuel + 1, t, w =>
    match t.literals[t.followed]? with
    | none => (none, t, w)
    | some l =>
      let l := Literal.opposite l
      let numbers := w.watchers.getD l []
      let t := { t with followed := t.followed + 1 }
      match visit clauses l numbers [] t (w.setWatchers l []) with
      | (some i, t, w) => (some i, t, w)
      | (none, t, w) => follow clauses fuel t w

end Watch
end ProductLine
