import ProductLine.Constraint.Basic
import ProductLine.Logic.Satisfiable
import ProductLine.Number.Shortest

/-! # The solving engine

`Oracle.solve` puts a set of constraints to the engine. The engine decides satisfiability, unless
its settings are invalid or a fault hits the call; then a `Mishap` says why there is no answer. -/

namespace ProductLine
namespace Oracle

/-- What can hit a call of the engine from outside. -/
inductive Fault where
  /-- The constraints are refused. -/
  | refusal
  /-- The engine breaks down. -/
  | breakdown
  /-- The engine runs out of time. -/
  | timeout
  /-- The engine breaks down when asked why it found no solution. -/
  | lostStatus
deriving DecidableEq, Repr

namespace Fault

/-- The fault with a short name. -/
def ofName? : String → Option Fault
  | "init" => some .refusal
  | "exception" => some .breakdown
  | "timeout" => some .timeout
  | "status" => some .lostStatus
  | _ => none

end Fault

/-- The engine that is asked for by its name, and how many seconds a call may take; null asks for
the first engine, and does not limit. Both are held as they were given. -/
structure Settings where
  solver : Value
  timeLimit : Value
deriving Repr

/-- Why the engine gave no answer. -/
inductive Mishap where
  | refused
  | brokeDown
  /-- A number or a truth value was given where the name of an engine is looked into. -/
  | solverNotName (given : Value)
  /-- A list or an object was given as the name of an engine with a variant. -/
  | solverNotSplit (given : Value)
  | unknownSolver (given : Value)
  /-- The engine is known by its name, but not at hand. -/
  | notInstalled (name : String)
  /-- The engine at hand has no variants. -/
  | noVariant
  /-- The name of a variable has halves of surrogate pairs in it. -/
  | unwritable (points : List Nat)
  | limitNotPositive
  | limitNotNumber (given : Value)
  | limitTooLarge
  | limitUndefined
  | ranOut (limit : Value)
  | statusLost
deriving Repr

namespace Settings

def solvers : List String := ["ortools"]

/-- The names of engines that are not at hand. -/
def otherSolvers : List String :=
  ["z3", "minizinc", "gcs", "gurobi", "pysat", "pysdd", "exact", "choco", "cpo", "cplex",
    "pindakaas", "pumpkin", "hexaly", "rc2"]

/-- The engine at hand, without a time limit. -/
def standard : Settings := ⟨.text "ortools", .null⟩

/-- The colon, which stands between the name of an engine and that of a variant. -/
def colon : String := ":"

/-- What is wrong with an engine's name, if anything. -/
def namedMishap? (name : String) : Option Mishap :=
  match name.toList.span (· != ':') with
  | (engine, variant) =>
    let engine := String.ofList engine
    if engine ∈ solvers then if variant.isEmpty then none else some .noVariant
    else if engine ∈ otherSolvers then some (.notInstalled engine)
    else some (.unknownSolver (.text name))

/-- What is wrong with the engine that is asked for, if anything. -/
def solverMishap? (given : Value) : Option Mishap :=
  match given with
  | .null => none
  | .text name => namedMishap? name
  | .list items =>
    some (if items.any fun i => i.key? = some (.text colon) then .solverNotSplit given
      else .unknownSolver given)
  | .object members =>
    some (if (Value.member? colon members).isSome then .solverNotSplit given
      else .unknownSolver given)
  | _ => some (.solverNotName given)

/-- What is wrong with a time limit that is a number, if anything. -/
def numberMishap? (limit : Number) : Option Mishap :=
  if limit.leInt 0 then some .limitNotPositive
  else
    match limit with
    | .float .nan => some .limitUndefined
    | .float _ => none
    | .int n => if (Binary64.roundInt? n).isSome then none else some .limitTooLarge

/-- What is wrong with the time limit, if anything. -/
def limitMishap? (given : Value) : Option Mishap :=
  match given, given.number? with
  | .null, _ => none
  | _, some limit => numberMishap? limit
  | _, none => some (.limitNotNumber given)

end Settings

/-- The code points of the first variable that has halves of surrogate pairs in it. -/
def unwritable? (cs : List Constraint) : Option (List Nat) :=
  (cs.flatMap fun c => c.formula.vars).findSome? fun name =>
    let points := Text.points name.toList
    if points.any Text.isHalf then some points else none

/-- What keeps the engine from deciding on constraints, if anything: first the engine is looked for,
then it takes the variables, and the time limit comes last. -/
def mishap? (s : Settings) (cs : List Constraint) : Option Mishap :=
  match Settings.solverMishap? s.solver, unwritable? cs with
  | some mishap, _ => some mishap
  | none, some points => some (.unwritable points)
  | none, none => Settings.limitMishap? s.timeLimit

namespace Mishap

/-- Whether time ran out or the engine failed. -/
def reason : Mishap → String
  | .ranOut _ => "time limit"
  | _ => "exception"

def sortName : Value → String
  | .null => "NoneType"
  | .bool _ => "bool"
  | .int _ => "int"
  | .float _ => "float"
  | .text _ => "str"
  | .list _ => "list"
  | .object _ => "dict"

/-- How many places the mark takes in front of the name of a variable. -/
def markSize : Nat := 2

def message : Mishap → String
  | .refused => "TypeError: bad constraint"
  | .brokeDown => "RuntimeError: engine down"
  | .solverNotName given =>
    "TypeError: argument of type '" ++ sortName given ++ "' is not iterable"
  | .solverNotSplit given =>
    "AttributeError: '" ++ sortName given ++ "' object has no attribute 'split'"
  | .unknownSolver given =>
    "ValueError: Unknown solver '" ++ given.display ++ "', choose from [" ++
      ", ".intercalate (Settings.solvers.map Text.quoted) ++ "]"
  | .notInstalled name =>
    "ModuleNotFoundError: CPM_" ++ name ++ ": Install the python package 'cpmpy[" ++ name ++
      "]' to use this solver interface" ++
      (if name = "pysat" then " (NOT the 'pysat' package!)" else ".")
  | .noVariant => "AssertionError: "
  | .unwritable points =>
    "UnicodeEncodeError: 'utf-8' codec can't encode " ++ Text.places Text.isHalf markSize points ++
      ": surrogates not allowed"
  | .limitNotPositive => "ValueError: time_limit must be positive"
  | .limitNotNumber given =>
    "TypeError: '<=' not supported between instances of '" ++ sortName given ++ "' and 'int'"
  | .limitTooLarge => "OverflowError: int too large to convert to float"
  | .limitUndefined => "Exception: ('OR-Tools says: model invalid:', '')"
  | .ranOut limit => "No answer within " ++ limit.display ++ "s"
  | .statusLost => "RuntimeError: no status"

end Mishap

/-- The mishap that a fault is, unless the fault comes after the search. -/
def Fault.mishap? (s : Settings) : Fault → Option Mishap
  | .refusal => some .refused
  | .breakdown => some .brokeDown
  | .timeout => some (.ranOut s.timeLimit)
  | .lostStatus => none

/-- Whether the constraints can hold together, or why there is no answer. A fault comes before the
settings are looked at, except that the status of a call is asked for only if there is no
solution. -/
def solve (settings : Settings) (fault : Option Fault) (cs : List Constraint) :
    Except Mishap Bool :=
  match fault.bind (Fault.mishap? settings), mishap? settings cs with
  | some mishap, _ => .error mishap
  | none, some mishap => .error mishap
  | none, none =>
    if Formula.satisfiable (Constraint.formulas cs) then .ok true
    else if fault = some .lostStatus then .error .statusLost
    else .ok false

/-- A mishap and the number of constraints of the call it happened in. -/
structure SolverFailure where
  mishap : Mishap
  constraints : Nat
deriving Repr

theorem solve_of_mishap?_eq_none {settings : Settings} {cs : List Constraint}
    (h : mishap? settings cs = none) :
    solve settings none cs = .ok (Formula.satisfiable (Constraint.formulas cs)) := by
  cases hs : Formula.satisfiable (Constraint.formulas cs) <;> simp [solve, h, hs]

end Oracle
end ProductLine
