import ProductLine.Anomaly.Category
import ProductLine.Oracle.Engine

/-! # Reports

A `Report` lists the `Finding`s of an analysis in the order in which they were recorded. An
explanation of a finding is a set of rules, those of the relationships of one diagnosis.
`Report.rows` lays the findings out as a table, one row for every explanation. -/

namespace ProductLine
namespace Anomaly

/-- Something found: its category, what it is about, its explanations as lists of rules, the partner
that excludes a conditionally dead feature, and whether there may be more explanations. -/
structure Finding where
  category : Category
  subject : String
  diagnoses : List (List String)
  condition : Option String
  truncated : Bool
deriving DecidableEq, Repr

namespace Finding

variable (f : Finding)

def bracketed (rules : List String) : String := "[" ++ ",".intercalate rules ++ "]"

/-- The explanations, numbered from one. -/
def explanations : List String :=
  f.diagnoses.zipIdx.map fun (rules, place) =>
    "Diagnosis " ++ toString (place + 1) ++ ": " ++ bracketed rules

def toValue : Value :=
  .object [("category", .text f.category.name), ("subject", .text f.subject),
    ("condition", f.condition.elim .null .text),
    ("diagnoses", .list (f.diagnoses.map fun rules => .list (rules.map .text))),
    ("truncated", .bool f.truncated)]

end Finding

/-- What an analysis found out about a model. -/
structure Report where
  model : Value
  consistent : Bool
  found : List Finding
  calls : Nat
  failures : List Oracle.SolverFailure
deriving Repr

/-- A row of the table of explanations. A finding without explanations has a row without number and
text, and so has an explanation without rules. -/
structure Row where
  category : Category
  subject : String
  condition : Option String
  diagnosis : Option Nat
  explanation : Option String
  truncated : Bool
deriving DecidableEq, Repr

namespace Report

/-- A report on a model with nothing found yet. -/
def new (model : Value) : Report := ⟨model, true, [], 0, []⟩

variable (r : Report)

def add (f : Finding) : Report := { r with found := r.found ++ [f] }

def findings (c : Category) : List Finding := r.found.filter (·.category = c)

def subjects (c : Category) : List String := (r.findings c).map (·.subject)

/-- The first finding of a category about a subject. -/
def findingFor (c : Category) (subject : String) : Option Finding :=
  (r.findings c).find? (·.subject == subject)

def hasAnomalies : Bool := !r.found.isEmpty

/-- The findings, category by category. -/
def byCategory : List Finding := Category.all.flatMap r.findings

def rowsOf (f : Finding) : List Row :=
  let diagnoses := if f.diagnoses.isEmpty then [[]] else f.diagnoses
  diagnoses.zipIdx.map fun (rules, place) =>
    let told := !rules.isEmpty
    ⟨f.category, f.subject, f.condition, if told then some (place + 1) else none,
      if told then some (Finding.bracketed rules) else none, f.truncated⟩

/-- The table of explanations. -/
def rows : List Row := r.byCategory.flatMap rowsOf

/-- The seconds that the analysis took. Its clock stands still, so that equal analyses have equal
reports; the clock that enumerations read is another one. -/
def elapsed : Report → Int := fun _ => 0

/-- The members of a report as an object, without the time it took. -/
def members : List (String × Value) :=
  [("model", r.model), ("consistent", .bool r.consistent),
    ("findings", .object (Category.all.map fun c =>
      (c.name, .list ((r.findings c).map Finding.toValue)))),
    ("oracle_calls", .int r.calls), ("solver_failures", .int r.failures.length)]

def toValue : Value := .object (r.members ++ [("elapsed", .float (.ofInt r.elapsed))])

end Report
end Anomaly
end ProductLine
