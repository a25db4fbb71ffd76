import ProductLine.Constraint.Store
import ProductLine.Journal

/-! # The workbench

On a `Workbench` lie a model, its constraint store, the engine that checks consistency, and what
surrounds the work: a clock, a cancellation token, the faults to come and the journal. `Work` is
what is done on it; it may fail, and what was done before a failure stays done. -/

namespace ProductLine

/-- What lets the caller call off an analysis, with the number of checks that it has let pass. It
can be set to cancel itself when a further check follows a number of them. -/
structure CancelToken where
  cancelled : Bool
  passed : Nat
  most : Option Nat
deriving DecidableEq, Repr

namespace CancelToken

/-- A token that never cancels itself. -/
def idle : CancelToken := ⟨false, 0, none⟩

/-- A token that lets a number of checks pass. -/
def after (checks : Nat) : CancelToken := ⟨false, 0, some checks⟩

/-- The token after a check; it is cancelled exactly if the check does not pass. -/
def check (t : CancelToken) : CancelToken :=
  if t.cancelled then t
  else if t.most.any (· ≤ t.passed) then { t with cancelled := true }
  else { t with passed := t.passed + 1 }

end CancelToken

/-- What surrounds the work: the faults of the calls to come by their numbers, the number of calls
made so far, the clock, the times that pass after its next readings and the time that passes after
every later one, the token and the journal. -/
structure World where
  faults : List (Nat × Oracle.Fault)
  calls : Nat
  clock : Int
  lapses : List Int
  clockStep : Int
  token : Option CancelToken
  notes : Array Journal.Note

namespace World

/-- A world without faults in which no time passes. -/
def calm : World := ⟨[], 0, 0, [], 0, none, #[]⟩

/-- The world after a reading of the clock. -/
def tick (w : World) : World :=
  match w.lapses with
  | [] => { w with clock := w.clock + w.clockStep }
  | lapse :: rest => { w with clock := w.clock + lapse, lapses := rest }

end World

/-- A model, the constraints that the last store attached to its relationships, the store and how
many have been made, the engine with the number of its calls and its failures, and the world
around. -/
structure Workbench where
  model : FeatureModel
  attached : List Constraint
  store : Store
  edition : Nat
  settings : Oracle.Settings
  calls : Nat
  failures : List Oracle.SolverFailure
  world : World

/-- Work done on a workbench. -/
abbrev Work := EStateM Failure Workbench

namespace Workbench

/-- A workbench with a model and nothing made of it yet. -/
def new (m : FeatureModel) (settings : Oracle.Settings) (w : World) : Workbench :=
  ⟨m, [], Store.empty, 0, settings, 0, [], w⟩

end Workbench

namespace Work

def note (n : Journal.Note) : Work Unit :=
  modify fun b => { b with world := { b.world with notes := b.world.notes.push n } }

def readClock : Work Int := do
  let now := (← get).world.clock
  modify fun b => { b with world := b.world.tick }
  return now

def onStore (f : Store → Store) : Work Unit := modify fun b => { b with store := f b.store }

/-- Makes the constraint store of the model. The relationships are attached to the new constraints
even if the making fails half way; the old store stays then. -/
def build (o : FeatureOrder) : Work Unit := do
  let m := (← get).model
  let attempt := Store.attempt m o
  modify fun b => { b with attached := attempt.attached.getD b.attached }
  unless attempt.unreachable.isEmpty do
    note (.unreachable (m.features.head?.elim "" (·.name)) attempt.unreachable)
  let s ← orFail attempt.outcome
  modify fun b => { b with store := s, edition := b.edition + 1, calls := 0, failures := [] }
  note (.storeMade m.name s.vars.length s.cf.length)

def attachedTo (r : Relationship) : Work (List Constraint) := do
  return (← get).attached.filter fun c => c.source.any r.same

def make (f : Formula String) (role : Constraint.Role) (source : Option Relationship) :
    Work Constraint := do
  let (c, s) := (← get).store.make f role source
  onStore fun _ => s
  return c

def variableOf (name : Value) : Work String := do
  let b ← get
  match ← orFail (b.store.find? name) with
  | some v => return v
  | none => throw (.noVariable name b.model.name)

/-- Makes the constraint that a feature is selected or not. -/
def assign (name : Value) (value : Bool) : Work Constraint := do
  let v ← variableOf name
  make (.literal v value) .assignment none

def negationOf (r : Relationship) : Work (List Constraint) := do
  unless r.isCrossTree do
    throw (.notNegatable (← orFail r.rule))
  let left ← variableOf r.left
  let right ← variableOf (← orFail (Encoding.firstRight r))
  return [← make (Encoding.negation r.kind left right) .negation (some r)]

end Work
end ProductLine
