import ProductLine.Anomaly.Report

/-! # Summaries

`Report.summary` tells a report line by line: for every category how many findings there are and
what they are about, with their explanations below. Of a void model only that is told. -/

namespace ProductLine
namespace Anomaly
namespace Report

variable (r : Report)

/-- The explanations of a finding under their heading; nothing for a finding without explanations.
-/
def explanationLines (f : Finding) : List String :=
  if f.explanations.isEmpty then []
  else
    ("\tExplanation(s) for " ++ f.subject ++ ":") :: f.explanations.map ("\t\t" ++ ·) ++
      if f.truncated then ["\t\t(more diagnoses exist, enumeration stopped at a limit)"] else []

def categoryExplanations (c : Category) : List String := (r.findings c).flatMap explanationLines

def heading (c : Category) (count : Nat) : String :=
  "X " ++ c.title ++ (if 1 < count then "s" else "") ++ " (" ++ toString count ++ "): "

/-- The lines of a category. Redundant constraints stand on lines of their own. -/
def categoryLines (c : Category) : List String :=
  let subjects := r.subjects c
  if subjects.isEmpty then ["✓ " ++ c.title ++ ": 0"]
  else
    (if c = .redundant then
      heading c subjects.length :: subjects.map fun s => "\t[" ++ s ++ "]"
    else [heading c subjects.length ++ ",".intercalate subjects]) ++ r.categoryExplanations c

def summary : List String :=
  if r.consistent then
    "✓ Consistency: ok" ::
      [Category.dead, .falseOptional, .conditionallyDead, .fullMandatory, .redundant].flatMap
        r.categoryLines
  else "X Void feature model" :: r.categoryExplanations .void

end Report
end Anomaly
end ProductLine
