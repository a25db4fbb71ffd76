import ProductLine.Diagnosis.First

/-! # All diagnoses

`Diagnosis.enumerate` expands a first diagnosis into others, level by level. For every constraint of
a diagnosis it moves that constraint from the candidates to the background and looks for another
diagnosis, which is accepted if it is not empty and contains no diagnosis accepted before. A limit
stops the search; what was accepted so far is kept.

Below the first level every diagnosis comes from the candidates that its branch has left, and each
level leaves one less, so that there are at most as many levels as candidates and one more. -/

namespace ProductLine
namespace Diagnosis

/-- An accepted diagnosis with the candidates left to its branch, those moved to the background, and
its depth. -/
structure Branch where
  diagnosis : List Constraint
  candidates : List Constraint
  excluded : List Constraint
  depth : Nat
deriving Repr

/-- The branches accepted so far, those of them that make up the next level, and the limit at which
the search stopped. -/
structure Search where
  accepted : List Branch
  next : List Branch
  stopped : Option Limit
deriving Repr

namespace Search

def start (diagnosis candidates : List Constraint) : Search :=
  let b : Branch := ⟨diagnosis, candidates, [], 0⟩
  ⟨[b], [b], none⟩

def diagnoses (s : Search) : List (List Constraint) := s.accepted.map (·.diagnosis)

def accept (s : Search) (b : Branch) : Search :=
  { s with accepted := s.accepted ++ [b], next := s.next ++ [b] }

def stopAt (s : Search) (limit : Limit) : Search := { s with stopped := some limit }

end Search

/-- The diagnoses found, and the limit that kept the search from finding more. -/
structure Enumeration where
  diagnoses : List (List Constraint)
  stopped : Option Limit
deriving Repr

/-- Whether the diagnosis contains no accepted one. -/
def isNew (diagnosis : List Constraint) (accepted : List (List Constraint)) : Bool :=
  !accepted.any fun other => other.all (·.isIn diagnosis)

/-- Accepts a branch unless its diagnosis is empty, contains an accepted one, or is beyond a limit.
-/
def consider (limits : Limits) (s : Search) (b : Branch) : Except Failure Search := do
  if b.diagnosis.isEmpty || !isNew b.diagnosis s.diagnoses then return s
  match ← limits.stop? s.accepted.length b.depth with
  | some limit => return s.stopAt limit
  | none => return s.accept b

variable {σ : Type} (e : Setting σ)

/-- The limit in time, if it has passed since the start. Without such a limit the clock is not read.
-/
def overtime (limits : Limits) (start : Int) : EStateM Failure σ (Option Limit) := do
  if limits.timed then
    let now ← e.readClock
    orFail (limits.overtime? (now - start))
  else return none

/-- Looks for another diagnosis with one constraint of a branch's diagnosis moved to the background.
-/
def expandAt (limits : Limits) (start : Int) (background : List Constraint) (b : Branch)
    (s : Search) (c : Constraint) : EStateM Failure σ Search := do
  match ← overtime e limits start with
  | some limit => return s.stopAt limit
  | none =>
    let candidates := Constraint.subtract b.candidates [c]
    let excluded := b.excluded ++ [c]
    let diagnosis ← first e candidates (Constraint.union background excluded)
    orFail (consider limits s ⟨diagnosis, candidates, excluded, b.depth + 1⟩)

/-- Goes on with a step unless the search has stopped. -/
def unlessStopped {α : Type} (step : Search → α → EStateM Failure σ Search) (s : Search) (a : α) :
    EStateM Failure σ Search :=
  if s.stopped.isSome then pure s else step s a

/-- Expands a branch at every constraint of its diagnosis. -/
def expand (limits : Limits) (start : Int) (background : List Constraint) (s : Search)
    (b : Branch) : EStateM Failure σ Search :=
  b.diagnosis.foldlM (unlessStopped (expandAt e limits start background b)) s

/-- Expands the branches of a level and then those of the levels below, at most so many levels in
all. -/
def levels (limits : Limits) (start : Int) (background : List Constraint) :
    Nat → Search → EStateM Failure σ Search
  | 0, s => return s
  | fuel + 1, s => do
    let s ← s.next.foldlM (unlessStopped (expand e limits start background)) { s with next := [] }
    if s.stopped.isSome || s.next.isEmpty then return s else levels limits start background fuel s

/-- The search that follows from a first diagnosis. -/
def search (limits : Limits) (diagnosis candidates background : List Constraint) :
    EStateM Failure σ Search := do
  let start ← e.readClock
  let s ← levels e limits start background (candidates.length + 2)
    (Search.start diagnosis candidates)
  if s.stopped.isNone then
    let now ← e.readClock
    match Binary64.roundInt? (now - start) with
    | some seconds => e.note (.enumerated s.accepted.length seconds)
    | none => throw .clockOverrun
  return s

/-- The diagnoses that follow from a first one, that one being the first of them. -/
def enumerate (limits : Limits) (diagnosis candidates background : List Constraint) :
    EStateM Failure σ Enumeration :=
  if diagnosis.isEmpty then return ⟨[], none⟩
  else do
    let s ← search e limits diagnosis candidates background
    return ⟨s.diagnoses, s.stopped⟩

end Diagnosis
end ProductLine
