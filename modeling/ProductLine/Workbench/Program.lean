import ProductLine.Workbench.Consistency

/-! # Programs over a store

A `Program` is whatever can be done with the operations of a store and with checks: it changes what is
posted, makes constraints, asks whether constraints can hold together, opens scopes inside of scopes,
lets what it has seen decide what comes next, fails, and recovers from failures. `Program.run` does so
on a workbench. The *points* of a run are the workbenches on which a part of the program begins or ends
and those on which a check asks the engine: nobody looks at the store in between. -/

namespace ProductLine

/-- A change of what is posted. -/
inductive Store.Change where
  | post (cs : List Constraint)
  | unpost (cs : List Constraint)
  | clear
  | reset

/-- The store after a change. -/
def Store.Change.apply : Store.Change → Store → Store
  | post cs, s => s.post cs
  | unpost cs, s => s.unpost cs
  | clear, s => s.clear
  | reset, s => s.reset

/-- The ways to post other constraints for the time of some work. -/
inductive Scope where
  | probe (perturbation : List Constraint)
  | swapped (cs : List Constraint)
  | retracted (r : Relationship)

namespace Scope

/-- The work in a scope; it is told what the scope hands out. -/
def around {α : Type} : Scope → (List Constraint → Work α) → Work α
  | probe perturbation, work => Work.probe perturbation work
  | swapped cs, work => Work.swapped cs work
  | retracted r, work => Work.retracted r work

/-- What is done before the work in a scope begins. It gives what is handed out, and what is done to the
store when the work ends. Only a constraint without an opposite is refused. -/
def opening : Scope → Work (List Constraint × (Store → Store))
  | probe perturbation => do
    Work.onStore fun s => s.reset.post perturbation
    return ((← get).store.posted, Store.reset)
  | swapped cs => do
    let saved := (← get).store.posted
    Work.onStore fun s => s.clear.post cs
    return ((← get).store.posted, fun s => s.clear.post saved)
  | retracted r => do
    let group := (← get).store.constraintsOf r
    Work.onStore fun s => s.reset.unpost group
    let negation ← Work.negationOf r
    Work.onStore fun s => s.post negation
    return (negation, fun s => ((s.unpost negation).post group).reset)

/-- A scope is entered with constraints handed out, and the work in it begins on a workbench. -/
def Enters (k : Scope) (b : Workbench) (handed : List Constraint) (inside : Workbench) : Prop :=
  ∃ ending, k.opening b = .ok (handed, ending) inside

/-- What of the constraints that a scope hands out is made by it: the opposite that it posts. -/
def made : Scope → List Constraint → List Constraint
  | retracted _, handed => handed
  | _, _ => []

end Scope

/-- What is done with the operations of a store, with checks and with scopes. -/
inductive Program : Type → Type 1 where
  | done {α : Type} (a : α) : Program α
  | raise {α : Type} (e : Failure) : Program α
  | look : Program Store
  | change (c : Store.Change) : Program Unit
  | make (f : Formula String) (role : Constraint.Role) (source : Option Relationship) :
    Program Constraint
  | check (cs : List Constraint) : Program Bool
  | block {α : Type} (k : Scope) (body : List Constraint → Program α) : Program α
  | andThen {α β : Type} (first : Program α) (next : α → Program β) : Program β
  | attempt {α : Type} (p : Program α) : Program (Except Failure α)

namespace Program

variable {α : Type}

/-- Work whose failure is told and not passed on. What it has changed stays changed. -/
def caught (work : Work α) : Work (Except Failure α) := fun b =>
  match work b with
  | .ok a c => .ok (.ok a) c
  | .error e c => .ok (.error e) c

def run {α : Type} : Program α → Work α
  | done a => return a
  | raise e => throw e
  | look => return (← get).store
  | change c => Work.onStore c.apply
  | make f role source => Work.make f role source
  | check cs => Work.isConsistent cs
  | block k body => k.around fun handed => (body handed).run
  | andThen first next => do (next (← first.run)).run
  | attempt p => caught p.run

/-- The workbench that a program leaves, whether it returns or fails. -/
def leaves (p : Program α) (b : Workbench) : Workbench :=
  match p.run b with
  | .ok _ c => c
  | .error _ c => c

/-- While a program runs on a workbench, a part of it runs on another one. -/
inductive Part {β : Type} (q : Program β) (c : Workbench) : {α : Type} → Program α → Workbench → Prop
  where
  | whole : Part q c q c
  | first {α γ : Type} {p : Program α} {next : α → Program γ} {b : Workbench} (h : Part q c p b) :
    Part q c (andThen p next) b
  | next {α γ : Type} {p : Program α} {next : α → Program γ} {b d : Workbench} {a : α}
    (hrun : p.run b = .ok a d) (h : Part q c (next a) d) : Part q c (andThen p next) b
  | attempt {α : Type} {p : Program α} {b : Workbench} (h : Part q c p b) : Part q c (attempt p) b
  | inside {α : Type} {k : Scope} {body : List Constraint → Program α} {handed : List Constraint}
    {b d : Workbench} (henter : k.Enters b handed d) (h : Part q c (body handed) d) :
    Part q c (block k body) b

/-- The workbenches on which a part of a program begins or ends or a check asks the engine. -/
inductive Point (p : Program α) (b : Workbench) : Workbench → Prop where
  | before {β : Type} {q : Program β} {c : Workbench} (h : Part q c p b) : Point p b c
  | behind {β : Type} {q : Program β} {c : Workbench} (h : Part q c p b) : Point p b (q.leaves c)
  | asking {cs handed : List Constraint} {c d inside : Workbench} (h : Part (check cs) c p b)
    (hpass : Work.passToken c = .ok () d) (henter : (Scope.swapped cs).Enters d handed inside) :
    Point p b inside

/-! ### Making constraints -/

/-- The constraints that a program makes on a workbench, in the order in which it makes them. -/
def makes {α : Type} : Program α → Workbench → List Constraint
  | make f role source, b => [(b.store.make f role source).1]
  | block k body, b =>
    match k.opening b with
    | .ok (handed, _) c => k.made handed ++ (body handed).makes c
    | .error _ _ => []
  | andThen first next, b =>
    first.makes b ++
      match first.run b with
      | .ok a c => (next a).makes c
      | .error _ _ => []
  | attempt p, b => p.makes b
  | _, _ => []

def ofExcept : Except Failure α → Program α
  | .ok a => done a
  | .error e => raise e

def ofOption (e : Failure) : Option α → Program α
  | some a => done a
  | none => raise e

/-- Looks for the variable of a feature. The title of the model is told if there is none. -/
def finding (title name : Value) : Program String :=
  andThen look fun s => andThen (ofExcept (s.find? name)) (ofOption (.noVariable name title))

/-- Makes the constraint that a feature is selected or not. -/
def assigning (title name : Value) (value : Bool) : Program Constraint :=
  andThen (finding title name) fun v => make (.literal v value) .assignment none

def negating (title : Value) (r : Relationship) : Program (List Constraint) :=
  andThen (if r.isCrossTree then done () else
    andThen (ofExcept r.rule) fun rule => raise (.notNegatable rule)) fun _ =>
  andThen (finding title r.left) fun left =>
  andThen (ofExcept (Encoding.firstRight r)) fun first =>
  andThen (finding title first) fun right =>
  andThen (make (Encoding.negation r.kind left right) .negation (some r)) fun c => done [c]

end Program
end ProductLine
